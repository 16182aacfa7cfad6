import QuantumCircuit.Decimal.Text
import QuantumCircuit.Expr.Basic

namespace QuantumCircuit

/-!
# The text of an expression

Operators stand between blanks, and an operand stands in parentheses where
reading it back would otherwise group it in another way.  A negation binds
tighter than a power, and a number with a minus sign counts as a negation.
-/

namespace Expr

/-- The precedence of a negation. -/
def negationStrength : Nat := 4

/-- The precedence of an expression that is never put in parentheses. -/
def atomStrength : Nat := 5

/-- How tightly the outermost part of an expression binds. -/
def strength : Expr → Nat
  | binary operator _ _ => operator.precedence
  | neg _ => negationStrength
  | number value => if value.isNegative then negationStrength else atomStrength
  | _ => atomStrength

/-- Does the left operand of an operator need parentheses? -/
def parenthesesLeft (operator : Operator) (left : Expr) : Bool :=
  if operator.groupsRight then left.strength ≤ operator.precedence
  else left.strength < operator.precedence

/-- Does the right operand of an operator need parentheses? -/
def parenthesesRight (operator : Operator) (right : Expr) : Bool :=
  if operator.groupsRight then right.strength < operator.precedence
  else right.strength ≤ operator.precedence

/-- Does the operand of a negation need parentheses? -/
def parenthesesNeg (operand : Expr) : Bool := operand.strength < atomStrength

/-- The magnitude of `10 ^ 15`. -/
def largeMagnitude : Nat := 0x430C6BF526340000

/-- A number in full, or with an exponent from `10 ^ 15` on. -/
def literalText (value : Binary64) : String :=
  if value.isFinite && largeMagnitude ≤ value.magnitude then NumberStyle.scientific.text value
  else NumberStyle.plain.text value

/-- Puts a text in parentheses if it needs them. -/
def enclose (needed : Bool) (text : String) : String :=
  if needed then "(" ++ text ++ ")" else text

/-- The text of an expression. -/
def text : Expr → String
  | number value => literalText value
  | pi => "pi"
  | identifier name => name
  | neg operand => "-" ++ enclose (parenthesesNeg operand) operand.text
  | binary operator left right =>
    enclose (parenthesesLeft operator left) left.text ++
      (" " ++ operator.sign ++ " ") ++
      enclose (parenthesesRight operator right) right.text
  | call function argument => function.name ++ "(" ++ argument.text ++ ")"

end Expr

end QuantumCircuit
