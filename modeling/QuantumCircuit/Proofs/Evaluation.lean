import QuantumCircuit.Expr.Evaluation
import QuantumCircuit.Proofs.Answers

/-!
# What a value depends on

An expression is evaluated from left to right, and the first failure is the answer.  Over any
arithmetic, a failure is that of a part which fails by itself: an identifier without a value, or a
quotient of two values whose divisor tests as zero.  So the listed identifiers are all that
evaluation reads from bindings, and with values for them only a quotient can fail.

* `Expr.parts` : the expressions that an expression is made of.
* `Arithmetic.evaluate_congr` : bindings that agree on the identifiers give the same answer.
* `Arithmetic.exists_fails_of_error`, `Arithmetic.exists_error_of_part` : an expression fails
  exactly if one of its parts fails by itself.
* `Arithmetic.evaluate_reads` : evaluation reads the listed identifiers.
-/

namespace QuantumCircuit

/-! ### Parts -/

/-- The parts of an expression: itself, and the parts of its operands from left to right. -/
def Expr.parts : Expr → List Expr
  | .neg operand => .neg operand :: operand.parts
  | .binary operator left right => .binary operator left right :: (left.parts ++ right.parts)
  | .call function argument => .call function argument :: argument.parts
  | leaf => [leaf]

@[simp]
theorem Expr.mem_parts_self (e : Expr) : e ∈ e.parts := by
  cases e <;> simp [parts]

/-- The identifiers of an expression are those among its parts. -/
theorem Expr.identifier_mem_parts {name : String} {e : Expr} :
    .identifier name ∈ e.parts ↔ name ∈ e.names := by
  induction e with
  | number | pi | identifier => simp [parts, names]
  | neg operand ih => simp [parts, names, ih]
  | binary operator left right ihLeft ihRight => simp [parts, names, ihLeft, ihRight]
  | call function argument ih => simp [parts, names, ih]

namespace Arithmetic

variable {α : Type} (arithmetic : Arithmetic α) {bindings : Bindings α} {e part : Expr}
  {error : EvaluationError}

/-! ### Identifiers -/

/-- Bindings that agree on the identifiers of an expression give the same answer. -/
theorem evaluate_congr {first second : Bindings α}
    (h : ∀ name ∈ e.names, first name = second name) :
    arithmetic.evaluate first e = arithmetic.evaluate second e := by
  induction e with
  | number | pi => rfl
  | identifier name =>
      rw [evaluate, evaluate, h name (by simp [Expr.names])]
  | neg operand ih => rw [evaluate, evaluate, ih h]
  | binary operator left right ihLeft ihRight =>
      have hNames : ∀ name ∈ left.names ++ right.names, first name = second name := h
      rw [List.forall_mem_append] at hNames
      rw [evaluate, evaluate, ihLeft hNames.1, ihRight hNames.2]
  | call function argument ih => rw [evaluate, evaluate, ih h]

/-! ### Failures -/

/-- The expression fails by itself, and not because an operand does. -/
inductive Fails (bindings : Bindings α) : Expr → EvaluationError → Prop
  | unbound {name : String} (hNone : bindings name = none) :
      Fails bindings (.identifier name) (.unbound name)
  | division {dividend divisor : Expr} {first second : α}
      (hFirst : arithmetic.evaluate bindings dividend = .ok first)
      (hSecond : arithmetic.evaluate bindings divisor = .ok second)
      (hZero : arithmetic.isZero second = true) :
      Fails bindings (.binary .div dividend divisor) .divisionByZero

/-- What fails by itself has no value. -/
theorem Fails.evaluate_eq (h : arithmetic.Fails bindings e error) :
    arithmetic.evaluate bindings e = .error error := by
  cases h with
  | unbound hNone => rw [evaluate, hNone]
  | division hFirst hSecond hZero =>
      rw [evaluate, hFirst, hSecond]
      exact if_pos hZero

/-- A failure is that of a part which fails by itself. -/
theorem exists_fails_of_error (h : arithmetic.evaluate bindings e = .error error) :
    ∃ part ∈ e.parts, arithmetic.Fails bindings part error := by
  induction e with
  | number value => cases h
  | pi => cases h
  | identifier name =>
      rw [evaluate] at h
      cases hValue : bindings name with
      | some value =>
          rw [hValue] at h
          cases h
      | none =>
          rw [hValue] at h
          cases h
          exact ⟨_, Expr.mem_parts_self _, .unbound hValue⟩
  | neg operand ih =>
      rw [evaluate, except_bind_eq_error] at h
      rcases h with hOperand | ⟨value, -, hValue⟩
      · obtain ⟨part, hPart, hFails⟩ := ih hOperand
        exact ⟨part, List.mem_cons_of_mem _ hPart, hFails⟩
      · cases hValue
  | binary operator left right ihLeft ihRight =>
      rw [evaluate, except_bind_eq_error] at h
      rcases h with hLeft | ⟨first, hFirst, hRest⟩
      · obtain ⟨part, hPart, hFails⟩ := ihLeft hLeft
        exact ⟨part, List.mem_cons_of_mem _ (List.mem_append_left _ hPart), hFails⟩
      rw [except_bind_eq_error] at hRest
      rcases hRest with hRight | ⟨second, hSecond, hCombine⟩
      · obtain ⟨part, hPart, hFails⟩ := ihRight hRight
        exact ⟨part, List.mem_cons_of_mem _ (List.mem_append_right _ hPart), hFails⟩
      · -- both operands have values, so that only a quotient fails
        cases operator with
        | div =>
            rw [combine] at hCombine
            split at hCombine
            · rename_i hZero
              cases hCombine
              exact ⟨_, Expr.mem_parts_self _, .division hFirst hSecond hZero⟩
            · cases hCombine
        | _ => cases hCombine
  | call function argument ih =>
      rw [evaluate, except_bind_eq_error] at h
      rcases h with hArgument | ⟨value, -, hValue⟩
      · obtain ⟨part, hPart, hFails⟩ := ih hArgument
        exact ⟨part, List.mem_cons_of_mem _ hPart, hFails⟩
      · cases hValue

/-- An expression with a part that has no value has none, but the failure that is the answer may
be that of another part. -/
theorem exists_error_of_part (hPart : part ∈ e.parts)
    (h : ∃ error, arithmetic.evaluate bindings part = .error error) :
    ∃ error, arithmetic.evaluate bindings e = .error error := by
  induction e with
  | number | pi | identifier =>
      obtain rfl := List.mem_singleton.mp hPart
      exact h
  | neg operand ih =>
      obtain rfl | hOperand := List.mem_cons.mp hPart
      · exact h
      · obtain ⟨error, hError⟩ := ih hOperand
        exact ⟨error, except_bind_eq_error.mpr (.inl hError)⟩
  | binary operator left right ihLeft ihRight =>
      obtain rfl | hOperand := List.mem_cons.mp hPart
      · exact h
      rcases List.mem_append.mp hOperand with hLeft | hRight
      · obtain ⟨error, hError⟩ := ihLeft hLeft
        exact ⟨error, except_bind_eq_error.mpr (.inl hError)⟩
      · -- the left operand is evaluated first, and may fail in front of the right one
        obtain ⟨error, hError⟩ := ihRight hRight
        cases hFirst : arithmetic.evaluate bindings left with
        | error other => exact ⟨other, except_bind_eq_error.mpr (.inl hFirst)⟩
        | ok first =>
            exact ⟨error, except_bind_eq_error.mpr
              (.inr ⟨first, hFirst, except_bind_eq_error.mpr (.inl hError)⟩)⟩
  | call function argument ih =>
      obtain rfl | hOperand := List.mem_cons.mp hPart
      · exact h
      · obtain ⟨error, hError⟩ := ih hOperand
        exact ⟨error, except_bind_eq_error.mpr (.inl hError)⟩

/-! ### Bound identifiers -/

/-- An identifier that is reported as unbound stands in the expression and has no value. -/
theorem unbound_of_error {name : String}
    (h : arithmetic.evaluate bindings e = .error (.unbound name)) :
    name ∈ e.names ∧ bindings name = none := by
  obtain ⟨part, hPart, hFails⟩ := arithmetic.exists_fails_of_error h
  cases hFails with
  | unbound hNone => exact ⟨Expr.identifier_mem_parts.mp hPart, hNone⟩

/-- An expression whose names are bound only fails by a division by zero. -/
theorem evaluate_error (hBound : ∀ name ∈ e.names, ∃ value, bindings name = some value)
    (h : arithmetic.evaluate bindings e = .error error) : error = .divisionByZero := by
  obtain ⟨part, hPart, hFails⟩ := arithmetic.exists_fails_of_error h
  cases hFails with
  | division => rfl
  | unbound hNone =>
      obtain ⟨value, hValue⟩ := hBound _ (Expr.identifier_mem_parts.mp hPart)
      rw [hNone] at hValue
      cases hValue

/-- An expression whose names are bound fails exactly if one of its quotients does by itself. -/
theorem evaluate_eq_divisionByZero
    (hBound : ∀ name ∈ e.names, ∃ value, bindings name = some value) :
    arithmetic.evaluate bindings e = .error .divisionByZero ↔
      ∃ part ∈ e.parts, arithmetic.Fails bindings part .divisionByZero := by
  constructor
  · exact arithmetic.exists_fails_of_error
  · rintro ⟨part, hPart, hFails⟩
    obtain ⟨error, hError⟩ :=
      arithmetic.exists_error_of_part hPart ⟨_, hFails.evaluate_eq⟩
    rw [hError, arithmetic.evaluate_error hBound hError]

/-- An expression with a value has values for all its names. -/
theorem isBound_of_evaluate {value : α} (h : arithmetic.evaluate bindings e = .ok value) :
    ∀ name ∈ e.names, bindings name ≠ none := by
  intro name hName hNone
  have hFails : arithmetic.Fails bindings (.identifier name) (.unbound name) := .unbound hNone
  obtain ⟨error, hError⟩ := arithmetic.exists_error_of_part
    (Expr.identifier_mem_parts.mpr hName) ⟨_, hFails.evaluate_eq⟩
  rw [h] at hError
  cases hError

/-- An expression that has a value without bindings has no identifiers. -/
theorem identifiers_eq_nil_of_evaluate {value : α}
    (h : arithmetic.evaluate .empty e = .ok value) : e.identifiers = [] := by
  rw [List.eq_nil_iff_forall_not_mem]
  intro name hName
  exact arithmetic.isBound_of_evaluate h name ((Expr.mem_identifiers name e).mp hName) rfl

/-- **The listed identifiers.**  Over any arithmetic, an answer depends only on the values of the
listed identifiers, and an identifier that is reported as unbound is a listed one without a value.
When all of them have values, an expression only fails by a division by zero, which it does exactly
if some quotient in it has two values and a divisor that tests as zero.  An expression that needs
no bindings lists no identifiers. -/
theorem evaluate_reads (e : Expr) :
    (∀ first second : Bindings α, (∀ name ∈ e.identifiers, first name = second name) →
      arithmetic.evaluate first e = arithmetic.evaluate second e) ∧
    (∀ (bindings : Bindings α) (name : String),
      arithmetic.evaluate bindings e = .error (.unbound name) →
        name ∈ e.identifiers ∧ bindings name = none) ∧
    (∀ bindings : Bindings α, (∀ name ∈ e.identifiers, ∃ value, bindings name = some value) →
      (∀ error, arithmetic.evaluate bindings e = .error error → error = .divisionByZero) ∧
      (arithmetic.evaluate bindings e = .error .divisionByZero ↔
        ∃ dividend divisor, .binary .div dividend divisor ∈ e.parts ∧
          ∃ first second, arithmetic.evaluate bindings dividend = .ok first ∧
            arithmetic.evaluate bindings divisor = .ok second ∧
            arithmetic.isZero second = true)) ∧
    ((arithmetic.evaluate .empty e).toOption.isSome → e.identifiers = []) ∧
    (e.constant?.isSome → e.identifiers = []) := by
  simp only [Expr.mem_identifiers]
  refine ⟨fun first second h => arithmetic.evaluate_congr h,
    fun bindings name h => arithmetic.unbound_of_error h, fun bindings hBound => ⟨?_, ?_⟩, ?_, ?_⟩
  · exact fun error h => arithmetic.evaluate_error hBound h
  · rw [arithmetic.evaluate_eq_divisionByZero hBound]
    constructor
    · rintro ⟨part, hPart, hFails⟩
      cases hFails with
      | division hFirst hSecond hZero => exact ⟨_, _, hPart, _, _, hFirst, hSecond, hZero⟩
    · rintro ⟨dividend, divisor, hPart, first, second, hFirst, hSecond, hZero⟩
      exact ⟨_, hPart, .division hFirst hSecond hZero⟩
  · intro h
    cases hValue : arithmetic.evaluate .empty e with
    | ok value => exact arithmetic.identifiers_eq_nil_of_evaluate hValue
    | error error =>
        rw [hValue] at h
        cases h
  · intro h
    cases hValue : binary64.evaluate .empty e with
    | ok value => exact binary64.identifiers_eq_nil_of_evaluate hValue
    | error error =>
        rw [Expr.constant?, Expr.evaluate, hValue] at h
        cases h

/-- The expression `pi / a + b`. -/
def shiftedQuotient : Expr :=
  .binary .add (.binary .div .pi (.identifier "a")) (.identifier "b")

/-- A negative zero is a divisor that tests as zero, whatever `b` is; with another divisor it is
`b` that is missing. -/
theorem evaluate_reads_shiftedQuotient :
    binary64.evaluate (.ofList [("a", Float.ofBits 0x8000000000000000), ("b", binary64.pi)])
      shiftedQuotient = .error .divisionByZero ∧
    binary64.evaluate (.ofList [("a", binary64.pi)]) shiftedQuotient = .error (.unbound "b") ∧
    "b" ∈ shiftedQuotient.identifiers ∧
    Bindings.ofList [("a", binary64.pi)] "b" = none := by
  obtain ⟨-, hUnbound, hBound, -, -⟩ := binary64.evaluate_reads shiftedQuotient
  have hMissing : binary64.evaluate (.ofList [("a", binary64.pi)]) shiftedQuotient =
      .error (.unbound "b") := rfl
  refine ⟨?_, hMissing, hUnbound _ _ hMissing⟩
  have hNames : ∀ name ∈ shiftedQuotient.identifiers, name = "a" ∨ name = "b" := by decide
  refine (hBound _ fun name hName => ?_).2.mpr
    ⟨.pi, .identifier "a", by decide, _, _, rfl, rfl, by decide⟩
  obtain rfl | rfl := hNames name hName
  · exact ⟨_, rfl⟩
  · exact ⟨_, rfl⟩

end Arithmetic

end QuantumCircuit
