import QuantumCircuit.Binary64
import QuantumCircuit.Text.SortedNames

namespace QuantumCircuit

/-!
# Parameter expressions

A gate parameter is an expression over numbers, the constant `pi`, the formal
parameters of the enclosing gate, five binary operators, negation and six
functions.  Parentheses leave no trace in the tree.
-/

/-- The functions that an expression may apply. -/
inductive MathFunction where
  | sin
  | cos
  | tan
  | exp
  | ln
  | sqrt
deriving DecidableEq, Repr, Inhabited

namespace MathFunction

/-- The name by which a text applies the function. -/
def name : MathFunction → String
  | sin => "sin"
  | cos => "cos"
  | tan => "tan"
  | exp => "exp"
  | ln => "ln"
  | sqrt => "sqrt"

/-- Every function. -/
def all : List MathFunction := [sin, cos, tan, exp, ln, sqrt]

end MathFunction

/-- The binary operators. -/
inductive Operator where
  | add
  | sub
  | mul
  | div
  | pow
deriving DecidableEq, Repr, Inhabited

namespace Operator

/-- The sign that stands for the operator. -/
def sign : Operator → String
  | add => "+"
  | sub => "-"
  | mul => "*"
  | div => "/"
  | pow => "^"

/-- How tightly the operator binds; a higher one binds its operands first. -/
def precedence : Operator → Nat
  | add | sub => 1
  | mul | div => 2
  | pow => 3

/-- Only powers group to the right. -/
def groupsRight : Operator → Bool
  | pow => true
  | _ => false

end Operator

/-- A parameter expression. -/
inductive Expr where
  | number (value : Binary64)
  | pi
  | identifier (name : String)
  | neg (operand : Expr)
  | binary (operator : Operator) (left right : Expr)
  | call (function : MathFunction) (argument : Expr)
deriving DecidableEq, Repr, Inhabited

namespace Expr

/-- The number of levels of the tree. -/
def height : Expr → Nat
  | number _ | pi | identifier _ => 1
  | neg operand => operand.height + 1
  | binary _ left right => max left.height right.height + 1
  | call _ argument => argument.height + 1

/-- The identifiers of an expression from left to right, as often as they occur. -/
def names : Expr → List String
  | number _ | pi => []
  | identifier name => [name]
  | neg operand => operand.names
  | binary _ left right => left.names ++ right.names
  | call _ argument => argument.names

/-- The identifiers of an expression in order, each once. -/
def identifiers (e : Expr) : List String := sortNames e.names

/-- Combining an expression with an operator makes it higher. -/
theorem height_left_lt (operator : Operator) (left right : Expr) :
    left.height < (binary operator left right).height := by
  simp only [height]; omega

theorem mem_identifiers (name : String) (e : Expr) :
    name ∈ e.identifiers ↔ name ∈ e.names := by
  simp [identifiers]

end Expr

end QuantumCircuit
