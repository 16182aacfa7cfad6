import QuantumCircuit.Proofs.Grammar.Nesting
import QuantumCircuit.Proofs.Printing.Program

/-!
# The nesting of a printed program

A printed program is derived whatever its parameters are, but the readers give up where one of
them nests too deeply.  Where none of them does, the program is derived within the limits;
otherwise its statements are refused for their nesting.

* `isProgram_of_readable` : a printed program within the limits is derived as the readers take it.
* `statements_refused` : a printed program beyond the limits is refused.
-/

namespace QuantumCircuit
namespace Grammar

variable {lexemes : List Lexeme}

theorem isExpression_of_readable {e : Expr} (h : IsPrinted lexemes e) (hReadable : e.Readable) :
    IsExpression lexemes e :=
  ⟨e.cost, h, hReadable.cost, hReadable.height⟩

theorem isProgram_of_readable {statements : List Statement}
    (h : IsProgram IsPrinted lexemes statements)
    (hReadable : ∀ s ∈ statements, ∀ call ∈ s.calls, ∀ e ∈ call.params, e.Readable) :
    IsProgram IsExpression lexemes statements :=
  h.mono fun _ _ s hs call hCall e he hPrinted =>
    isExpression_of_readable hPrinted (hReadable s hs call hCall e he)

/-- What is printed and read is within the limits: no phrase is both read and refused. -/
theorem readable_of_isExpression {e : Expr} (h : IsPrinted lexemes e)
    (hRead : IsExpression lexemes e) : e.Readable := by
  by_contra hDeep
  have hBeyond : nestingLimit ≤ e.cost ∨ nestingLimit < e.height := by
    by_contra hWithin
    exact hDeep ⟨by omega, by omega⟩
  let semicolon : Lexeme := ⟨.symbol .semicolon, "", 0, 0, .start⟩
  obtain ⟨rest, hRefused⟩ := expression_refuses h hBeyond (show semicolon.token = _ from rfl) rfl []
  rw [expression_completes _ _ hRead semicolon [] .semicolon rfl rfl] at hRefused
  cases hRefused

/-- **Nesting.**  Statements with a parameter beyond the limits are refused. -/
theorem statements_refused {mode : Mode} {found : List Statement}
    (h : IsProgram IsPrinted lexemes found) (hMode : ∀ s ∈ found, mode.Allows s)
    (hDeep : ¬ ∀ s ∈ found, ∀ call ∈ s.calls, ∀ e ∈ call.params, e.Readable) :
    RefusesNesting (statements mode) lexemes := by
  refine (h.within_or_refused (fun _ e hItem => ⟨e.cost, hItem⟩) hMode).resolve_left fun hAll => ?_
  refine hDeep fun s hs call hCall e he => ?_
  obtain ⟨part, hPrinted, hRead⟩ := hAll.exists_param s hs call hCall e he
  exact readable_of_isExpression hPrinted hRead

end Grammar
end QuantumCircuit
