import QuantumCircuit.Expr.Basic

namespace QuantumCircuit

/-!
# The value of an expression

Evaluation works over any arithmetic: a type of numbers with a meaning for each
operator and function and a test for zero.  Operands are evaluated from left to
right, the first failure is the answer, and a quotient fails when its divisor
tests as zero.  The arithmetic of a running program is that of binary
floating-point numbers.
-/

/-- A meaning for the parts of an expression. -/
structure Arithmetic (α : Type) where
  number : Binary64 → α
  pi : α
  neg : α → α
  add : α → α → α
  sub : α → α → α
  mul : α → α → α
  div : α → α → α
  pow : α → α → α
  isZero : α → Bool
  apply : MathFunction → α → α

/-- Why an expression has no value. -/
inductive EvaluationError where
  | unbound (name : String)
  | divisionByZero
deriving DecidableEq, Repr

/-- The wording of an evaluation error. -/
def EvaluationError.message : EvaluationError → String
  | unbound name => .join ["Identifier '", name, "' is unbound"]
  | divisionByZero => "Division by zero"

/-- The values of identifiers, where they have one. -/
abbrev Bindings (α : Type) := String → Option α

namespace Bindings

/-- No identifier has a value. -/
def empty {α : Type} : Bindings α := fun _ => none

/-- Gives a value to one identifier, in place of an earlier one. -/
def bind {α : Type} (bindings : Bindings α) (name : String) (value : α) : Bindings α :=
  fun other => if other = name then some value else bindings other

/-- The bindings of a list of pairs, of which a later one wins. -/
def ofList {α : Type} (pairs : List (String × α)) : Bindings α :=
  pairs.foldl (fun bindings pair => bindings.bind pair.1 pair.2) empty

end Bindings

namespace Arithmetic

variable {α : Type}

/-- The value of an operator applied to two numbers. -/
def combine (arithmetic : Arithmetic α) (operator : Operator) (left right : α) :
    Except EvaluationError α :=
  match operator with
  | .add => .ok (arithmetic.add left right)
  | .sub => .ok (arithmetic.sub left right)
  | .mul => .ok (arithmetic.mul left right)
  | .div =>
    if arithmetic.isZero right then .error .divisionByZero
    else .ok (arithmetic.div left right)
  | .pow => .ok (arithmetic.pow left right)

/-- The value of an expression under bindings. -/
def evaluate (arithmetic : Arithmetic α) (bindings : Bindings α) :
    Expr → Except EvaluationError α
  | .number value => .ok (arithmetic.number value)
  | .pi => .ok arithmetic.pi
  | .identifier name =>
    match bindings name with
    | some value => .ok value
    | none => .error (.unbound name)
  | .neg operand => do
    let value ← arithmetic.evaluate bindings operand
    .ok (arithmetic.neg value)
  | .binary operator left right => do
    let first ← arithmetic.evaluate bindings left
    let second ← arithmetic.evaluate bindings right
    arithmetic.combine operator first second
  | .call function argument => do
    let value ← arithmetic.evaluate bindings argument
    .ok (arithmetic.apply function value)

/-- Binary floating-point numbers. -/
def binary64 : Arithmetic Float where
  number := Binary64.toFloat
  pi := Float.ofBits 0x400921FB54442D18
  neg := Float.neg
  add := Float.add
  sub := Float.sub
  mul := Float.mul
  div := Float.div
  pow := Float.pow
  isZero value := value == 0.0
  apply
    | .sin => Float.sin
    | .cos => Float.cos
    | .tan => Float.tan
    | .exp => Float.exp
    | .ln => Float.log
    | .sqrt => Float.sqrt

end Arithmetic

namespace Expr

/-- The floating-point value of an expression under bindings. -/
def evaluate (e : Expr) (bindings : Bindings Float) : Except EvaluationError Float :=
  Arithmetic.binary64.evaluate bindings e

/-- The value of an expression that needs no bindings. -/
def constant? (e : Expr) : Option Float := (e.evaluate .empty).toOption

end Expr

end QuantumCircuit
