import QuantumCircuit.Proofs.Grammar.Reading

/-!
# Derivations of expressions

The grammar of expressions has five layers, and every layer has its own rules:

* a sum is a sum and a product with a plus or a minus between them, or a product;
* a product is a product and a power with a star or a slash between them, or a power;
* a power is a signed phrase and a power with a caret between them, or a signed phrase;
* a signed phrase is a minus in front of a signed phrase, or a primary phrase;
* a primary phrase is a number, `pi`, an identifier, a function applied to a sum in parentheses,
  or a sum in parentheses.

A derivation is a tree of these rules.  It knows its tokens, its expression and what it costs to
read it; `Derives` says the same with levels in place of layers.

* `Derivation.derivesAt`, `Derives.derivedAs` : the two ways to derive a phrase agree.
* `Derivation.eq_of_tokens_eq` : tokens have one derivation, however deep it nests.
* `Expr.ofLexemes_derivation` : what is read is what has a derivation within the limits.
-/

namespace QuantumCircuit
namespace Grammar

/-! ### Rules -/

/-- The layers of the grammar, the loosest one first. -/
inductive Layer where
  | sum
  | product
  | power
  | signed
  | primary

/-- The operators between the parts of a sum. -/
inductive SumOperator where
  | plus
  | minus

/-- The operators between the parts of a product. -/
inductive ProductOperator where
  | star
  | slash

namespace SumOperator

/-- What the operator means. -/
def operator : SumOperator → Operator
  | plus => .add
  | minus => .sub

/-- How the operator is written. -/
def symbol : SumOperator → Symbol
  | plus => .plus
  | minus => .minus

end SumOperator

namespace ProductOperator

/-- What the operator means. -/
def operator : ProductOperator → Operator
  | star => .mul
  | slash => .div

/-- How the operator is written. -/
def symbol : ProductOperator → Symbol
  | star => .star
  | slash => .slash

end ProductOperator

/-- A derivation of a phrase of a layer. -/
inductive Derivation : Layer → Type where
  | sum (left : Derivation .sum) (operator : SumOperator) (right : Derivation .product) :
      Derivation .sum
  | ofProduct (only : Derivation .product) : Derivation .sum
  | product (left : Derivation .product) (operator : ProductOperator) (right : Derivation .power) :
      Derivation .product
  | ofPower (only : Derivation .power) : Derivation .product
  | power (left : Derivation .signed) (right : Derivation .power) : Derivation .power
  | ofSigned (only : Derivation .signed) : Derivation .power
  | minus (operand : Derivation .signed) : Derivation .signed
  | ofPrimary (only : Derivation .primary) : Derivation .signed
  | integer (value : UInt64) : Derivation .primary
  | real (value : Binary64) : Derivation .primary
  | pi : Derivation .primary
  | identifier (name : String) : Derivation .primary
  | call (f : MathFunction) (argument : Derivation .sum) : Derivation .primary
  | parenthesis (inner : Derivation .sum) : Derivation .primary

namespace Derivation

variable {layer : Layer}

/-- The tokens that are derived. -/
def tokens : {layer : Layer} → Derivation layer → List Token
  | _, sum left operator right => left.tokens ++ .symbol operator.symbol :: right.tokens
  | _, product left operator right => left.tokens ++ .symbol operator.symbol :: right.tokens
  | _, power left right => left.tokens ++ .symbol .caret :: right.tokens
  | _, minus operand => .symbol .minus :: operand.tokens
  | _, ofProduct only => only.tokens
  | _, ofPower only => only.tokens
  | _, ofSigned only => only.tokens
  | _, ofPrimary only => only.tokens
  | _, integer value => [.integer value]
  | _, real value => [.real value]
  | _, pi => [.keyword .pi]
  | _, identifier name => [.identifier name]
  | _, call f argument =>
    .function f :: .symbol .leftParen :: (argument.tokens ++ [.symbol .rightParen])
  | _, parenthesis inner => .symbol .leftParen :: (inner.tokens ++ [.symbol .rightParen])

/-- The expression that is derived; parentheses leave no trace in it. -/
def tree : {layer : Layer} → Derivation layer → Expr
  | _, sum left operator right => .binary operator.operator left.tree right.tree
  | _, product left operator right => .binary operator.operator left.tree right.tree
  | _, power left right => .binary .pow left.tree right.tree
  | _, minus operand => .neg operand.tree
  | _, ofProduct only => only.tree
  | _, ofPower only => only.tree
  | _, ofSigned only => only.tree
  | _, ofPrimary only => only.tree
  | _, integer value => .number (Decimal.toBinary64 ⟨value.toNat, 0⟩)
  | _, real value => .number value
  | _, pi => .pi
  | _, identifier name => .identifier name
  | _, call f argument => .call f argument.tree
  | _, parenthesis inner => inner.tree

/-- The largest of some costs, zero if there are none. -/
def largest (costs : List Nat) : Nat := costs.foldr max 0

/-- The costs of the right operands of the operators on the left spine, and of the argument or
the phrase between parentheses at its left end, if it ends with one. -/
def spineCosts : {layer : Layer} → Derivation layer → List Nat
  | _, sum left _ right => (1 + largest right.spineCosts) :: left.spineCosts
  | _, product left _ right => (1 + largest right.spineCosts) :: left.spineCosts
  | _, power left right => (1 + largest right.spineCosts) :: left.spineCosts
  | _, minus operand => operand.spineCosts
  | _, ofProduct only => only.spineCosts
  | _, ofPower only => only.spineCosts
  | _, ofSigned only => only.spineCosts
  | _, ofPrimary only => only.spineCosts
  | _, call _ argument => [1 + largest argument.spineCosts]
  | _, parenthesis inner => [1 + largest inner.spineCosts]
  | _, integer _ => []
  | _, real _ => []
  | _, pi => []
  | _, identifier _ => []

/-- What a derivation costs: one more than the largest cost along its left spine.  Minus signs
cost nothing. -/
def cost (d : Derivation layer) : Nat := 1 + largest d.spineCosts

/-! ### Tokens by the last rule -/

theorem tokens_sum (left : Derivation .sum) (operator : SumOperator) (right : Derivation .product) :
    (sum left operator right).tokens = left.tokens ++ .symbol operator.symbol :: right.tokens :=
  rfl

theorem tokens_product (left : Derivation .product) (operator : ProductOperator)
    (right : Derivation .power) :
    (product left operator right).tokens = left.tokens ++ .symbol operator.symbol :: right.tokens :=
  rfl

theorem tokens_power (left : Derivation .signed) (right : Derivation .power) :
    (power left right).tokens = left.tokens ++ .symbol .caret :: right.tokens :=
  rfl

theorem tokens_call (f : MathFunction) (argument : Derivation .sum) :
    (call f argument).tokens =
      .function f :: .symbol .leftParen :: (argument.tokens ++ [.symbol .rightParen]) :=
  rfl

theorem tokens_parenthesis (inner : Derivation .sum) :
    (parenthesis inner).tokens = .symbol .leftParen :: (inner.tokens ++ [.symbol .rightParen]) :=
  rfl

/-! ### Costs by the last rule -/

/-- A rule with an operator adds the cost of its right operand to the left spine. -/
theorem cost_of_operand {first second : Layer} {whole : Derivation layer} {left : Derivation first}
    {right : Derivation second}
    (h : whole.spineCosts = (1 + largest right.spineCosts) :: left.spineCosts) :
    whole.cost = max left.cost (right.cost + 1) := by
  simp only [cost, h, largest, List.foldr_cons]
  omega

/-- A rule with a phrase between parentheses ends the left spine with it. -/
theorem cost_of_inner {first : Layer} {whole : Derivation layer} {inner : Derivation first}
    (h : whole.spineCosts = [1 + largest inner.spineCosts]) : whole.cost = inner.cost + 1 := by
  simp only [cost, h, largest, List.foldr_cons, List.foldr_nil]
  omega

theorem cost_sum (left : Derivation .sum) (operator : SumOperator) (right : Derivation .product) :
    (sum left operator right).cost = max left.cost (right.cost + 1) :=
  cost_of_operand rfl

theorem cost_product (left : Derivation .product) (operator : ProductOperator)
    (right : Derivation .power) :
    (product left operator right).cost = max left.cost (right.cost + 1) :=
  cost_of_operand rfl

theorem cost_power (left : Derivation .signed) (right : Derivation .power) :
    (power left right).cost = max left.cost (right.cost + 1) :=
  cost_of_operand rfl

theorem cost_call (f : MathFunction) (argument : Derivation .sum) :
    (call f argument).cost = argument.cost + 1 :=
  cost_of_inner rfl

theorem cost_parenthesis (inner : Derivation .sum) :
    (parenthesis inner).cost = inner.cost + 1 :=
  cost_of_inner rfl

end Derivation

/-! ### Levels and layers -/

/-- The level of a layer. -/
def Layer.level : Layer → Nat
  | sum => 1
  | product => 2
  | power => 3
  | signed => 4
  | primary => 5

/-- The layer of a level; an expression is a sum. -/
def Layer.ofLevel : Nat → Layer
  | 0 | 1 => sum
  | 2 => product
  | 3 => power
  | 4 => signed
  | _ => primary

/-- The lexemes are derived on the level, and `cost` counts the outermost level, too. -/
def DerivesAt (level : Nat) (lexemes : List Lexeme) (e : Expr) (cost : Nat) : Prop :=
  ∃ nested, cost = nested + 1 ∧ Derives level lexemes e nested

variable {lexemes : List Lexeme} {e left right : Expr} {leftCost rightCost cost : Nat}

theorem DerivesAt.tighter {level : Nat} (h : DerivesAt (level + 1) lexemes e cost) :
    DerivesAt level lexemes e cost := by
  obtain ⟨nested, hCost, hTighter⟩ := h
  exact ⟨nested, hCost, .tighter hTighter⟩

/-- Lexemes with an operator between two phrases. -/
theorem DerivesAt.binary {operator : Operator} {symbol : Symbol} {first second : List Token}
    (h : lexemes.map Lexeme.token = first ++ .symbol symbol :: second)
    (hOperator : operator? symbol = some operator)
    (hLeft : ∀ part : List Lexeme, part.map Lexeme.token = first →
      DerivesAt (leftPrecedence operator) part left leftCost)
    (hRight : ∀ part : List Lexeme, part.map Lexeme.token = second →
      DerivesAt (rightPrecedence operator) part right rightCost) :
    DerivesAt operator.precedence lexemes (.binary operator left right)
      (max leftCost (rightCost + 1)) := by
  obtain ⟨front, others, rfl, hFront, hOthers⟩ := List.map_eq_append_iff.mp h
  obtain ⟨sign, back, rfl, hSign, hBack⟩ := List.map_eq_cons_iff.mp hOthers
  obtain ⟨leftNested, rfl, hFirst⟩ := hLeft front hFront
  obtain ⟨rightNested, rfl, hSecond⟩ := hRight back hBack
  exact ⟨max leftNested (rightNested + 1), by omega, .binary hSign hOperator hFirst hSecond⟩

/-- A single lexeme that is complete as an expression. -/
theorem DerivesAt.leaf {token : Token} (h : lexemes.map Lexeme.token = [token])
    (hLeaf : opening? token = some (.leaf e)) : DerivesAt 5 lexemes e 1 := by
  obtain ⟨lexeme, rfl, rfl⟩ := List.map_eq_singleton_iff.mp h
  exact ⟨0, rfl, .leaf hLeaf⟩

/-- The lexemes of a derivation are derived on the level of its layer. -/
theorem Derivation.derivesAt {layer : Layer} (d : Derivation layer)
    (h : lexemes.map Lexeme.token = d.tokens) : DerivesAt layer.level lexemes d.tree d.cost := by
  induction d generalizing lexemes with
  | sum left operator right ihLeft ihRight =>
      rw [cost_sum]
      cases operator with
      | plus => exact .binary h rfl (fun _ => ihLeft) (fun _ => ihRight)
      | minus => exact .binary h rfl (fun _ => ihLeft) (fun _ => ihRight)
  | product left operator right ihLeft ihRight =>
      rw [cost_product]
      cases operator with
      | star => exact .binary h rfl (fun _ => ihLeft) (fun _ => ihRight)
      | slash => exact .binary h rfl (fun _ => ihLeft) (fun _ => ihRight)
  | power left right ihLeft ihRight =>
      rw [cost_power]
      have hCaret : operator? .caret = some .pow := rfl
      exact .binary h hCaret (fun _ => ihLeft) (fun _ => ihRight)
  | minus operand ih =>
      obtain ⟨sign, others, rfl, hSign, hOthers⟩ := List.map_eq_cons_iff.mp h
      obtain ⟨nested, hCost, hOperand⟩ := ih hOthers
      exact ⟨nested, hCost, .minus hSign hOperand⟩
  | ofProduct only ih => exact .tighter (ih h)
  | ofPower only ih => exact .tighter (ih h)
  | ofSigned only ih => exact .tighter (ih h)
  | ofPrimary only ih => exact .tighter (ih h)
  | call f argument ih =>
      obtain ⟨name, others, rfl, hName, hOthers⟩ := List.map_eq_cons_iff.mp h
      obtain ⟨opening, behind, rfl, hOpening, hBehind⟩ := List.map_eq_cons_iff.mp hOthers
      obtain ⟨inner, last, rfl, hInner, hLast⟩ := List.map_eq_append_iff.mp hBehind
      obtain ⟨closing, rfl, hClosing⟩ := List.map_eq_singleton_iff.mp hLast
      obtain ⟨nested, hCost, hArgument⟩ := ih hInner
      rw [cost_call, hCost]
      exact ⟨nested + 1, rfl, .call hName hOpening (.tighter hArgument) hClosing⟩
  | parenthesis inner ih =>
      obtain ⟨opening, others, rfl, hOpening, hOthers⟩ := List.map_eq_cons_iff.mp h
      obtain ⟨inside, last, rfl, hInside, hLast⟩ := List.map_eq_append_iff.mp hOthers
      obtain ⟨closing, rfl, hClosing⟩ := List.map_eq_singleton_iff.mp hLast
      obtain ⟨nested, hCost, hInner⟩ := ih hInside
      rw [cost_parenthesis, hCost]
      exact ⟨nested + 1, rfl, .parenthesis hOpening (.tighter hInner) hClosing⟩
  | integer value => exact .leaf h rfl
  | real value => exact .leaf h rfl
  | pi => exact .leaf h rfl
  | identifier name => exact .leaf h rfl

/-- The lexemes have a derivation of the layer, with this tree and this cost. -/
def DerivedAs (layer : Layer) (lexemes : List Lexeme) (e : Expr) (cost : Nat) : Prop :=
  ∃ d : Derivation layer, lexemes.map Lexeme.token = d.tokens ∧ d.tree = e ∧ d.cost = cost

/-- A leaf is a primary phrase. -/
theorem DerivedAs.leaf {lexeme : Lexeme} (h : opening? lexeme.token = some (.leaf e)) :
    DerivedAs .primary [lexeme] e 1 := by
  cases hToken : lexeme.token with
  | integer value =>
      rw [hToken] at h
      cases h
      exact ⟨.integer value, congrArg (fun token => [token]) hToken, rfl, rfl⟩
  | real value =>
      rw [hToken] at h
      cases h
      exact ⟨.real value, congrArg (fun token => [token]) hToken, rfl, rfl⟩
  | identifier name =>
      rw [hToken] at h
      cases h
      exact ⟨.identifier name, congrArg (fun token => [token]) hToken, rfl, rfl⟩
  | keyword word =>
      rw [hToken] at h
      cases word <;> cases h
      exact ⟨.pi, congrArg (fun token => [token]) hToken, rfl, rfl⟩
  | symbol sign =>
      rw [hToken] at h
      cases sign <;> cases h
  | _ =>
      rw [hToken] at h
      cases h

theorem DerivedAs.parenthesis {opening closing : Lexeme}
    (hOpening : opening.token = .symbol .leftParen) (hInner : DerivedAs .sum lexemes e cost)
    (hClosing : closing.token = .symbol .rightParen) :
    DerivedAs .primary (opening :: (lexemes ++ [closing])) e (cost + 1) := by
  obtain ⟨inner, hTokens, rfl, rfl⟩ := hInner
  refine ⟨.parenthesis inner, ?_, rfl, Derivation.cost_parenthesis inner⟩
  simp [Derivation.tokens_parenthesis, hTokens, hOpening, hClosing]

theorem DerivedAs.call {name opening closing : Lexeme} {f : MathFunction}
    (hName : name.token = .function f) (hOpening : opening.token = .symbol .leftParen)
    (hInner : DerivedAs .sum lexemes e cost) (hClosing : closing.token = .symbol .rightParen) :
    DerivedAs .primary (name :: opening :: (lexemes ++ [closing])) (.call f e) (cost + 1) := by
  obtain ⟨argument, hTokens, rfl, rfl⟩ := hInner
  refine ⟨.call f argument, ?_, rfl, Derivation.cost_call f argument⟩
  simp [Derivation.tokens_call, hTokens, hName, hOpening, hClosing]

theorem DerivedAs.minus {sign : Lexeme} (hSign : sign.token = .symbol .minus)
    (hOperand : DerivedAs .signed lexemes e cost) :
    DerivedAs .signed (sign :: lexemes) (.neg e) cost := by
  obtain ⟨operand, hTokens, rfl, rfl⟩ := hOperand
  refine ⟨.minus operand, ?_, rfl, rfl⟩
  rw [List.map_cons, hSign, hTokens]
  rfl

/-- Phrases on both sides of an operator. -/
theorem DerivedAs.binary {sign : Lexeme} {symbol : Symbol} {operator : Operator}
    {first second : List Lexeme} (hSign : sign.token = .symbol symbol)
    (hOperator : operator? symbol = some operator)
    (hLeft : DerivedAs (Layer.ofLevel (leftPrecedence operator)) first left leftCost)
    (hRight : DerivedAs (Layer.ofLevel (rightPrecedence operator)) second right rightCost) :
    DerivedAs (Layer.ofLevel operator.precedence) (first ++ sign :: second)
      (.binary operator left right) (max leftCost (rightCost + 1)) := by
  obtain ⟨before, hFirst, rfl, rfl⟩ := hLeft
  obtain ⟨behind, hSecond, rfl, rfl⟩ := hRight
  have hTokens : (first ++ sign :: second).map Lexeme.token =
      before.tokens ++ .symbol symbol :: behind.tokens := by
    rw [List.map_append, List.map_cons, hSign, hFirst, hSecond]
  rw [DerivedAs, hTokens]
  cases symbol <;> cases hOperator
  · exact ⟨.sum before .plus behind, rfl, rfl, Derivation.cost_sum ..⟩
  · exact ⟨.sum before .minus behind, rfl, rfl, Derivation.cost_sum ..⟩
  · exact ⟨.product before .star behind, rfl, rfl, Derivation.cost_product ..⟩
  · exact ⟨.product before .slash behind, rfl, rfl, Derivation.cost_product ..⟩
  · exact ⟨.power before behind, rfl, rfl, Derivation.cost_power ..⟩

/-- A phrase of a layer is one of the layer outside. -/
theorem DerivedAs.tighter {level : Nat}
    (h : DerivedAs (Layer.ofLevel (level + 1)) lexemes e cost) :
    DerivedAs (Layer.ofLevel level) lexemes e cost := by
  obtain ⟨d, hTokens, hTree, hCost⟩ := h
  match level with
  | 0 => exact ⟨d, hTokens, hTree, hCost⟩
  | 1 => exact ⟨.ofProduct d, hTokens, hTree, hCost⟩
  | 2 => exact ⟨.ofPower d, hTokens, hTree, hCost⟩
  | 3 => exact ⟨.ofSigned d, hTokens, hTree, hCost⟩
  | 4 => exact ⟨.ofPrimary d, hTokens, hTree, hCost⟩
  | _ + 5 => exact ⟨d, hTokens, hTree, hCost⟩

/-- What is derived on a level has a derivation of its layer. -/
theorem Derives.derivedAs {level : Nat} (h : Derives level lexemes e cost) :
    DerivedAs (Layer.ofLevel level) lexemes e (cost + 1) := by
  induction h with
  | leaf hLeaf => exact .leaf hLeaf
  | parenthesis hOpening hInner hClosing ih => exact .parenthesis hOpening ih hClosing
  | call hName hOpening hInner hClosing ih => exact .call hName hOpening ih hClosing
  | minus hSign hOperand ih => exact .minus hSign ih
  | @binary _ _ _ _ _ _ _ leftCost rightCost hSign hOperator hLeft hRight ihLeft ihRight =>
      have hCost : max leftCost (rightCost + 1) + 1 = max (leftCost + 1) (rightCost + 1 + 1) := by
        omega
      rw [hCost]
      exact .binary hSign hOperator ihLeft ihRight
  | tighter hTighter ih => exact .tighter ih

/-! ### One derivation -/

/-- The operator that a token is, if it is one. -/
def tokenOperator? : Token → Option Operator
  | .symbol sign => operator? sign
  | _ => none

/-- An operator of sums goes on a sum, and nothing tighter. -/
theorem SumOperator.goesOn (operator : SumOperator) :
    tokenOperator? (.symbol operator.symbol) = some operator.operator ∧
      operator.operator.precedence = Layer.sum.level ∧
        operator.operator.precedence < edge Layer.sum.level := by
  cases operator <;> decide

/-- An operator of products goes on a product, and nothing tighter. -/
theorem ProductOperator.goesOn (operator : ProductOperator) :
    tokenOperator? (.symbol operator.symbol) = some operator.operator ∧
      operator.operator.precedence = Layer.product.level ∧
        operator.operator.precedence < edge Layer.product.level := by
  cases operator <;> decide

/-- The tokens begin with no operator that binds at least as tightly as a bound. -/
def Clear (bound : Nat) (back : List Token) : Prop :=
  ∀ token ∈ back.head?, ∀ operator, tokenOperator? token = some operator →
    operator.precedence < bound

/-- No operator goes on a signed phrase. -/
theorem clear_of_le {bound : Nat} (h : 4 ≤ bound) (back : List Token) : Clear bound back :=
  fun _ _ operator _ => Nat.lt_of_lt_of_le (precedence_lt_four operator) h

theorem not_clear_caret (back : List Token) : ¬ Clear 3 (.symbol .caret :: back) := by
  simp [Clear, tokenOperator?, operator?, Operator.precedence]

theorem clear_rightParen (bound : Nat) (back : List Token) :
    Clear bound (.symbol .rightParen :: back) := by
  simp [Clear, tokenOperator?, operator?]

namespace Derivation

/-- The number of operators of the layer itself on the left spine of a sum or a product. -/
def spine : {layer : Layer} → Derivation layer → Nat
  | _, sum left _ _ => left.spine + 1
  | _, product left _ _ => left.spine + 1
  | _, _ => 0

/-- The front of a sum or a product, without its last operators and their right operands. -/
def dropLast : {layer : Layer} → Derivation layer → Nat → Derivation layer
  | _, sum left _ _, count + 1 => left.dropLast count
  | _, product left _ _, count + 1 => left.dropLast count
  | _, d, _ => d

variable {layer : Layer}

theorem dropLast_zero (d : Derivation layer) : d.dropLast 0 = d := by
  cases d <;> rfl

/-- From a phrase that is no operation of its layer nothing can be dropped. -/
theorem dropLast_of_spine {d : Derivation layer} (h : d.spine = 0) (count : Nat) :
    d.dropLast count = d := by
  cases d <;> first | rfl | cases h

theorem spine_dropLast (d : Derivation layer) (count : Nat) :
    (d.dropLast count).spine = d.spine - count := by
  induction d generalizing count with
  | sum left operator right ihLeft =>
      cases count with
      | zero => rfl
      | succ count => simp [dropLast, spine, ihLeft]
  | product left operator right ihLeft =>
      cases count with
      | zero => rfl
      | succ count => simp [dropLast, spine, ihLeft]
  | _ => simp [dropLast, spine]

/-- What is dropped begins with an operator of the layer. -/
theorem exists_dropped (d : Derivation layer) {count : Nat} (hPos : 0 < count)
    (hCount : count ≤ d.spine) :
    ∃ token rest operator, d.tokens = (d.dropLast count).tokens ++ token :: rest ∧
      tokenOperator? token = some operator ∧ operator.precedence = layer.level ∧
        operator.precedence < edge layer.level := by
  obtain ⟨count, rfl⟩ := Nat.exists_eq_succ_of_ne_zero (Nat.ne_of_gt hPos)
  induction d generalizing count with
  | sum left operator right ihLeft =>
      rw [dropLast, tokens_sum]
      cases count with
      | zero =>
          rw [dropLast_zero]
          exact ⟨_, _, operator.operator, rfl, operator.goesOn⟩
      | succ count =>
          have hLeft : count + 1 ≤ left.spine := Nat.le_of_succ_le_succ hCount
          obtain ⟨token, rest, found, hTokens, hFound⟩ := ihLeft _ (Nat.succ_pos _) hLeft
          rw [hTokens, List.append_assoc, List.cons_append]
          exact ⟨token, _, found, rfl, hFound⟩
  | product left operator right ihLeft =>
      rw [dropLast, tokens_product]
      cases count with
      | zero =>
          rw [dropLast_zero]
          exact ⟨_, _, operator.operator, rfl, operator.goesOn⟩
      | succ count =>
          have hLeft : count + 1 ≤ left.spine := Nat.le_of_succ_le_succ hCount
          obtain ⟨token, rest, found, hTokens, hFound⟩ := ihLeft _ (Nat.succ_pos _) hLeft
          rw [hTokens, List.append_assoc, List.cons_append]
          exact ⟨token, _, found, rfl, hFound⟩
  | _ => exact absurd hCount (Nat.not_succ_le_zero _)

/-- Every front of the derivation is the only one of its tokens among those that are as long. -/
def Settled (d : Derivation layer) : Prop :=
  ∀ count other, other.spine = (d.dropLast count).spine → ∀ back behind,
    Clear (edge layer.level) back → Clear (edge layer.level) behind →
      (d.dropLast count).tokens ++ back = other.tokens ++ behind →
        d.dropLast count = other ∧ back = behind

theorem clear_edge {back : List Token} (h : Clear layer.level back) :
    Clear (edge layer.level) back := by
  cases layer with
  | primary => exact clear_of_le (by decide) back
  | _ => exact fun token hToken operator hOperator =>
      Nat.lt_of_lt_of_le (h token hToken operator hOperator) (by decide)

theorem clear_cons {bound : Nat} {token : Token} {operator : Operator}
    (hOperator : tokenOperator? token = some operator) {rest : List Token} :
    Clear bound (token :: rest) ↔ operator.precedence < bound := by
  simp [Clear, hOperator]

theorem clear_sumOperator (operator : SumOperator) (rest : List Token) :
    Clear (edge Layer.sum.level) (.symbol operator.symbol :: rest) :=
  (clear_cons operator.goesOn.1).mpr operator.goesOn.2.2

theorem clear_productOperator (operator : ProductOperator) (rest : List Token) :
    Clear (edge Layer.product.level) (.symbol operator.symbol :: rest) :=
  (clear_cons operator.goesOn.1).mpr operator.goesOn.2.2

theorem Settled.same {d other : Derivation layer} (h : d.Settled) (hSpine : other.spine = d.spine)
    {back behind : List Token} (hBack : Clear (edge layer.level) back)
    (hBehind : Clear (edge layer.level) behind)
    (hTokens : d.tokens ++ back = other.tokens ++ behind) : d = other ∧ back = behind := by
  have hSame := h 0 other
  rw [dropLast_zero] at hSame
  exact hSame hSpine back behind hBack hBehind hTokens

theorem Settled.of_spine {d : Derivation layer} (hSpine : d.spine = 0)
    (h : ∀ other back behind, other.spine = 0 → Clear (edge layer.level) back →
      Clear (edge layer.level) behind → d.tokens ++ back = other.tokens ++ behind →
        d = other ∧ back = behind) :
    d.Settled := by
  intro count other hOther back behind
  rw [dropLast_of_spine hSpine] at hOther ⊢
  exact h other back behind (hOther.trans hSpine)

/-- In front of what cannot go on it, a settled derivation is the only one of its tokens. -/
theorem Settled.unique {d other : Derivation layer} (h : d.Settled) {back behind : List Token}
    (hBack : Clear layer.level back) (hBehind : Clear layer.level behind)
    (hTokens : d.tokens ++ back = other.tokens ++ behind) : d = other ∧ back = behind := by
  rcases Nat.lt_trichotomy d.spine other.spine with hShorter | hSame | hLonger
  · -- the other one has a front that ends before an operator, and so would this one
    obtain ⟨token, rest, operator, hOther, hOperator, hLevel, hEdge⟩ :=
      other.exists_dropped (Nat.sub_pos_of_lt hShorter) (Nat.sub_le _ _)
    rw [hOther, List.append_assoc, List.cons_append] at hTokens
    have hSpine : (other.dropLast (other.spine - d.spine)).spine = d.spine := by
      rw [spine_dropLast]
      omega
    obtain ⟨-, rfl⟩ := h.same hSpine (clear_edge hBack) ((clear_cons hOperator).mpr hEdge) hTokens
    have hClear := (clear_cons hOperator).mp hBack
    omega
  · exact h.same hSame.symm (clear_edge hBack) (clear_edge hBehind) hTokens
  · obtain ⟨token, rest, operator, hThis, hOperator, hLevel, hEdge⟩ :=
      d.exists_dropped (Nat.sub_pos_of_lt hLonger) (Nat.sub_le _ _)
    rw [hThis, List.append_assoc, List.cons_append] at hTokens
    have hSpine : other.spine = (d.dropLast (d.spine - other.spine)).spine := by
      rw [spine_dropLast]
      omega
    obtain ⟨-, rfl⟩ := h _ other hSpine _ _ ((clear_cons hOperator).mpr hEdge)
      (clear_edge hBehind) hTokens
    have hClear := (clear_cons hOperator).mp hBehind
    omega

/-- What stands in front of an operator and behind it is settled apart from each other. -/
theorem Settled.grouped {next : Layer} {left first : Derivation layer}
    {right second : Derivation next} (hLeft : left.Settled) (hRight : right.Settled)
    (hSpine : first.spine = left.spine) {sign other : Token}
    (hSign : ∀ rest, Clear (edge layer.level) (sign :: rest))
    (hOther : ∀ rest, Clear (edge layer.level) (other :: rest)) {back behind : List Token}
    (hBack : Clear next.level back) (hBehind : Clear next.level behind)
    (hTokens : (left.tokens ++ sign :: right.tokens) ++ back =
      (first.tokens ++ other :: second.tokens) ++ behind) :
    left = first ∧ sign = other ∧ right = second ∧ back = behind := by
  rw [List.append_assoc, List.append_assoc] at hTokens
  obtain ⟨hFirst, hRest⟩ := hLeft.same hSpine (hSign _) (hOther _) hTokens
  obtain ⟨hSame, hSecond⟩ := List.cons.inj hRest
  obtain ⟨hRight, hEnds⟩ := hRight.unique hBack hBehind hSecond
  exact ⟨hFirst, hSame, hRight, hEnds⟩

/-- A primary phrase does not begin with a minus. -/
theorem primary_ne_minus (d : Derivation .primary) (back behind : List Token) :
    d.tokens ++ back ≠ .symbol .minus :: behind := by
  cases d <;> intro h <;> cases h

/-- Every derivation is settled. -/
theorem settled (d : Derivation layer) : d.Settled := by
  -- A shorter front of a sum is a front of its left part; the whole sum ends behind the same
  -- operator as any other one of its length, since both their left parts are settled.
  induction d with
  | sum left operator right ihLeft ihRight =>
      intro count other hSpine back behind hBack hBehind hTokens
      cases count with
      | succ count => exact ihLeft count other hSpine back behind hBack hBehind hTokens
      | zero =>
          rw [dropLast_zero] at hSpine hTokens ⊢
          cases other with
          | ofProduct only => cases hSpine
          | sum first sign second =>
              obtain ⟨rfl, hSign, rfl, hEnds⟩ := ihLeft.grouped ihRight (Nat.succ.inj hSpine)
                (clear_sumOperator _) (clear_sumOperator _) hBack hBehind hTokens
              refine ⟨?_, hEnds⟩
              cases operator <;> cases sign <;> first | rfl | cases hSign
  | product left operator right ihLeft ihRight =>
      intro count other hSpine back behind hBack hBehind hTokens
      cases count with
      | succ count => exact ihLeft count other hSpine back behind hBack hBehind hTokens
      | zero =>
          rw [dropLast_zero] at hSpine hTokens ⊢
          cases other with
          | ofPower only => cases hSpine
          | product first sign second =>
              obtain ⟨rfl, hSign, rfl, hEnds⟩ := ihLeft.grouped ihRight (Nat.succ.inj hSpine)
                (clear_productOperator _) (clear_productOperator _) hBack hBehind hTokens
              refine ⟨?_, hEnds⟩
              cases operator <;> cases sign <;> first | rfl | cases hSign
  | ofProduct only ih =>
      refine .of_spine rfl fun other back behind hSpine hBack hBehind hTokens => ?_
      cases other with
      | sum first sign second => cases hSpine
      | ofProduct other =>
          obtain ⟨rfl, hEnds⟩ := ih.unique hBack hBehind hTokens
          exact ⟨rfl, hEnds⟩
  | ofPower only ih =>
      refine .of_spine rfl fun other back behind hSpine hBack hBehind hTokens => ?_
      cases other with
      | product first sign second => cases hSpine
      | ofPower other =>
          obtain ⟨rfl, hEnds⟩ := ih.unique hBack hBehind hTokens
          exact ⟨rfl, hEnds⟩
  | power left right ihLeft ihRight =>
      refine .of_spine rfl fun other back behind hSpine hBack hBehind hTokens => ?_
      rw [tokens_power, List.append_assoc, List.cons_append] at hTokens
      cases other with
      | ofSigned other =>
          obtain ⟨-, rfl⟩ := ihLeft.unique (clear_of_le (by decide) _)
            (clear_of_le (by decide) _) hTokens
          exact absurd hBehind (not_clear_caret _)
      | power first second =>
          rw [tokens_power, List.append_assoc, List.cons_append] at hTokens
          obtain ⟨rfl, hRest⟩ := ihLeft.unique (clear_of_le (by decide) _)
            (clear_of_le (by decide) _) hTokens
          obtain ⟨rfl, hEnds⟩ := ihRight.unique hBack hBehind (List.cons.inj hRest).2
          exact ⟨rfl, hEnds⟩
  | ofSigned only ih =>
      refine .of_spine rfl fun other back behind hSpine hBack hBehind hTokens => ?_
      cases other with
      | power first second =>
          rw [tokens_power, List.append_assoc, List.cons_append] at hTokens
          obtain ⟨-, rfl⟩ := ih.unique (clear_of_le (by decide) _)
            (clear_of_le (by decide) _) hTokens
          exact absurd hBack (not_clear_caret _)
      | ofSigned other =>
          obtain ⟨rfl, hEnds⟩ := ih.unique (clear_of_le (by decide) _)
            (clear_of_le (by decide) _) hTokens
          exact ⟨rfl, hEnds⟩
  | minus operand ih =>
      refine .of_spine rfl fun other back behind hSpine hBack hBehind hTokens => ?_
      cases other with
      | ofPrimary other => exact absurd hTokens.symm (primary_ne_minus other _ _)
      | minus other =>
          obtain ⟨rfl, hEnds⟩ := ih.unique (clear_of_le (by decide) _)
            (clear_of_le (by decide) _) (List.cons.inj hTokens).2
          exact ⟨rfl, hEnds⟩
  | ofPrimary only ih =>
      refine .of_spine rfl fun other back behind hSpine hBack hBehind hTokens => ?_
      cases other with
      | minus other => exact absurd hTokens (primary_ne_minus only _ _)
      | ofPrimary other =>
          obtain ⟨rfl, hEnds⟩ := ih.unique (clear_of_le (by decide) _)
            (clear_of_le (by decide) _) hTokens
          exact ⟨rfl, hEnds⟩
  | call f argument ih =>
      refine .of_spine rfl fun other back behind hSpine hBack hBehind hTokens => ?_
      cases other with
      | call g other =>
          simp only [tokens_call, List.cons_append, List.append_assoc, List.cons.injEq,
            Token.function.injEq, true_and] at hTokens
          obtain ⟨rfl, hInner⟩ := hTokens
          obtain ⟨rfl, hRest⟩ := ih.unique (clear_rightParen _ _) (clear_rightParen _ _) hInner
          exact ⟨rfl, (List.cons.inj hRest).2⟩
      | _ => cases hTokens
  | parenthesis inner ih =>
      refine .of_spine rfl fun other back behind hSpine hBack hBehind hTokens => ?_
      cases other with
      | parenthesis other =>
          simp only [tokens_parenthesis, List.cons_append, List.append_assoc, List.cons.injEq,
            true_and] at hTokens
          obtain ⟨rfl, hRest⟩ := ih.unique (clear_rightParen _ _) (clear_rightParen _ _) hTokens
          exact ⟨rfl, (List.cons.inj hRest).2⟩
      | _ => cases hTokens
  | _ =>
      -- a single token is the only one of its kind
      refine .of_spine rfl fun other back behind hSpine hBack hBehind hTokens => ?_
      cases other <;> cases hTokens
      exact ⟨rfl, rfl⟩

/-- **No ambiguity.**  Tokens have at most one derivation of a layer. -/
theorem eq_of_tokens_eq {first second : Derivation layer} (h : first.tokens = second.tokens) :
    first = second := by
  have hClear : Clear layer.level [] := fun token hToken => nomatch hToken
  have hTokens : first.tokens ++ [] = second.tokens ++ [] := by rw [h]
  exact (first.settled.unique hClear hClear hTokens).1

end Derivation
end Grammar

open Grammar

variable {lexemes : List Lexeme}

/-- Lexemes are an expression within the limits exactly if they have a derivation within the
limits. -/
theorem isExpression_iff_derivation {e : Expr} :
    IsExpression lexemes e ↔ ∃ d : Derivation .sum,
      d.tokens = lexemes.map Lexeme.token ∧ d.tree = e ∧ e.height ≤ 256 ∧ d.cost ≤ 256 := by
  constructor
  · rintro ⟨cost, hDerives, hCost, hHeight⟩
    obtain ⟨d, hTokens, rfl, hSame⟩ := hDerives.derivedAs
    exact ⟨d, hTokens.symm, rfl, hHeight, hSame ▸ hCost⟩
  · rintro ⟨d, hTokens, rfl, hHeight, hCost⟩
    obtain ⟨nested, hSame, hDerives⟩ := d.derivesAt hTokens.symm
    exact ⟨nested, .tighter hDerives, by rw [hSame] at hCost; exact hCost, hHeight⟩

/-- **Precedence.**  Lexemes in front of the end of the input are read as an expression exactly
if they have a derivation whose tree is at most 256 levels high and which nests at most 256
levels; the expression is the tree of the derivation, and there is no other derivation. -/
theorem Expr.ofLexemes_derivation (h : ∀ lexeme ∈ lexemes, lexeme.token ≠ .endOfInput)
    {final : Lexeme} (hFinal : final.token = .endOfInput) :
    (∀ e, Expr.ofLexemes (lexemes ++ [final]) = .ok e ↔ ∃ d : Derivation .sum,
      d.tokens = lexemes.map Lexeme.token ∧ d.tree = e ∧ e.height ≤ 256 ∧ d.cost ≤ 256) ∧
      ∀ first second : Derivation .sum, first.tokens = second.tokens → first = second := by
  refine ⟨fun e => ?_, fun first second => Derivation.eq_of_tokens_eq⟩
  rw [Expr.ofLexemes_eq_ok, properLexemes_append_end h hFinal, isExpression_iff_derivation]

/-- The derivation of `-a ^ b ^ c - (pi)`: the minus in front goes with `a` alone, the carets
group to the right, and the parentheses leave no trace. -/
def minusPowers : Derivation .sum :=
  .sum
    (.ofProduct (.ofPower (.power (.minus (.ofPrimary (.identifier "a")))
      (.power (.ofPrimary (.identifier "b")) (.ofSigned (.ofPrimary (.identifier "c")))))))
    .minus
    (.ofPower (.ofSigned (.ofPrimary (.parenthesis
      (.ofProduct (.ofPower (.ofSigned (.ofPrimary .pi))))))))

/-- The lexemes of `-a ^ b ^ c - (pi)`. -/
def minusPowersLexemes : List Lexeme :=
  [.symbol .minus, .identifier "a", .symbol .caret, .identifier "b", .symbol .caret,
    .identifier "c", .symbol .minus, .symbol .leftParen, .keyword .pi,
    .symbol .rightParen].map Token.lexeme

theorem Expr.ofLexemes_derivation_minusPowers :
    (∀ lexeme ∈ minusPowersLexemes, lexeme.token ≠ .endOfInput) ∧
      (Token.lexeme .endOfInput).token = .endOfInput ∧
      Expr.ofLexemes (minusPowersLexemes ++ [Token.lexeme .endOfInput]) =
        .ok (.binary .sub (.binary .pow (.neg (.identifier "a"))
          (.binary .pow (.identifier "b") (.identifier "c"))) .pi) := by
  have hProper : ∀ lexeme ∈ minusPowersLexemes, lexeme.token ≠ .endOfInput := by decide
  exact ⟨hProper, rfl, ((Expr.ofLexemes_derivation hProper rfl).1 _).mpr
    ⟨minusPowers, rfl, rfl, by decide, by decide⟩⟩

end QuantumCircuit
