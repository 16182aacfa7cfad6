/-!
# Answers in sequence

A check or an evaluation that follows another one gives an answer only if the first one does, and
it fails if either of them does.
-/

namespace QuantumCircuit

theorem except_bind_eq_ok {ε α β : Type} {first : Except ε α} {next : α → Except ε β}
    {value : β} :
    (first >>= next) = .ok value ↔ ∃ middle, first = .ok middle ∧ next middle = .ok value := by
  cases first <;> simp [bind, Except.bind]

theorem except_check_eq_ok {ε α : Type} {first : Except ε Unit} {next : Unit → Except ε α}
    {value : α} : (first >>= next) = .ok value ↔ first = .ok () ∧ next () = .ok value := by
  cases first <;> simp [bind, Except.bind]

theorem except_pure_eq_ok {ε α : Type} {found value : α} :
    (pure found : Except ε α) = .ok value ↔ value = found := by
  rw [pure, Applicative.toPure, Monad.toApplicative, Except.instMonad]
  simp [Except.pure, eq_comm]

theorem except_bind_eq_error {ε β γ : Type} {first : Except ε β} {next : β → Except ε γ}
    {fault : ε} :
    (first >>= next) = .error fault ↔
      first = .error fault ∨ ∃ middle, first = .ok middle ∧ next middle = .error fault := by
  cases first <;> simp [bind, Except.bind]

end QuantumCircuit
