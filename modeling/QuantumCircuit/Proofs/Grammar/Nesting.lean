import QuantumCircuit.Proofs.Grammar.Statement
import QuantumCircuit.Proofs.Program.Legible

/-!
# Parameters of any nesting

The grammar of statements leaves open what a parameter is.  With expressions of any nesting as
parameters there are more programs than the readers take, and what they do not take they refuse
for its nesting.

* `IsProgram.mono` : other phrases in the places of the parameters.
* `IsProgram.exists_param` : every parameter of a program has a phrase.
* `IsProgram.within_or_refused` : all parameters are within the limits, or the program is refused.
-/

namespace QuantumCircuit
namespace Grammar

variable {α : Type} {param other : List Lexeme → Expr → Prop} {lexemes : List Lexeme}

/-! ### Other phrases in the same places -/

theorem Listed.mono {phrase wider : List Lexeme → α → Prop} {values : List α}
    (h : Listed phrase lexemes values)
    (hItem : ∀ part ⊆ lexemes, ∀ value ∈ values, phrase part value → wider part value) :
    Listed wider lexemes values := by
  induction h with
  | one hOne => exact .one (hItem _ (List.Subset.refl _) _ (List.mem_cons_self ..) hOne)
  | more hFirst hComma hOthers ih =>
      refine .more (hItem _ (List.subset_append_left ..) _ (List.mem_cons_self ..) hFirst) hComma
        (ih fun part hPart value hValue => hItem part ?_ value (List.mem_cons_of_mem _ hValue))
      exact List.subset_append_of_subset_right _ (List.subset_cons_of_subset _ hPart)

theorem InParentheses.mono {phrase wider : List Lexeme → α → Prop} {values : List α}
    (h : InParentheses phrase lexemes values)
    (hItem : ∀ part ⊆ lexemes, ∀ value ∈ values, phrase part value → wider part value) :
    InParentheses wider lexemes values := by
  cases h with
  | absent => exact .absent
  | empty hOpening hClosing => exact .empty hOpening hClosing
  | given hOpening hInner hClosing =>
      refine .given hOpening (hInner.mono fun part hPart => hItem part ?_) hClosing
      exact List.subset_cons_of_subset _ (List.subset_append_of_subset_left _ hPart)

theorem IsCall.mono {call : GateCall} (h : IsCall param lexemes call)
    (hParam : ∀ part ⊆ lexemes, ∀ e ∈ call.params, param part e → other part e) :
    IsCall other lexemes call := by
  obtain ⟨hName, hParams, hQubits⟩ := h
  refine .mk hName (hParams.mono fun part hPart => hParam part ?_) hQubits
  exact List.subset_cons_of_subset _ (List.subset_append_of_subset_left _ hPart)

theorem IsBody.mono {calls : List GateCall} (h : IsBody param lexemes calls)
    (hParam : ∀ part ⊆ lexemes, ∀ call ∈ calls, ∀ e ∈ call.params, param part e → other part e) :
    IsBody other lexemes calls := by
  induction h with
  | nil => exact .nil
  | cons hCall hSemicolon hOthers ih =>
      refine .cons (hCall.mono fun part hPart => hParam part ?_ _ (List.mem_cons_self ..))
        hSemicolon (ih fun part hPart call hMember =>
          hParam part ?_ call (List.mem_cons_of_mem _ hMember))
      · exact List.subset_append_of_subset_left _ hPart
      · exact List.subset_append_of_subset_right _ (List.subset_cons_of_subset _ hPart)

theorem IsStatement.mono {statement : Statement} (h : IsStatement param lexemes statement)
    (hParam : ∀ part ⊆ lexemes, ∀ call ∈ statement.calls, ∀ e ∈ call.params,
      param part e → other part e) :
    IsStatement other lexemes statement := by
  cases h with
  | version hWord hNumber hSemicolon => exact .version hWord hNumber hSemicolon
  | inclusion hWord hPath hSemicolon => exact .inclusion hWord hPath hSemicolon
  | register hWord hName hOpening hNumber hClosing hSemicolon =>
      exact .register hWord hName hOpening hNumber hClosing hSemicolon
  | gate hWord hHeader hOpening hBody hClosing =>
      refine .gate hWord hHeader hOpening (hBody.mono fun part hPart => hParam part ?_) hClosing
      refine List.subset_cons_of_subset _ (List.subset_append_of_subset_right _ ?_)
      exact List.subset_cons_of_subset _ (List.subset_append_of_subset_left _ hPart)
  | opaqueGate hWord hHeader hSemicolon => exact .opaqueGate hWord hHeader hSemicolon
  | call hCall hSemicolon =>
      refine .call (hCall.mono fun part hPart => hParam part ?_ _ (List.mem_singleton_self _))
        hSemicolon
      exact List.subset_append_of_subset_left _ hPart
  | measure hWord hSource hArrow hTarget hSemicolon =>
      exact .measure hWord hSource hArrow hTarget hSemicolon
  | reset hWord hTarget hSemicolon => exact .reset hWord hTarget hSemicolon
  | barrier hWord hTargets hSemicolon => exact .barrier hWord hTargets hSemicolon
  | condition hWord hOpening hName hEquals hNumber hClosing hCall hSemicolon =>
      refine .condition hWord hOpening hName hEquals hNumber hClosing
        (hCall.mono fun part hPart => hParam part ?_ _ (List.mem_singleton_self _)) hSemicolon
      iterate 6 refine List.subset_cons_of_subset _ ?_
      exact List.subset_append_of_subset_left _ hPart

theorem IsProgram.mono {statements : List Statement} (h : IsProgram param lexemes statements)
    (hParam : ∀ part ⊆ lexemes, ∀ s ∈ statements, ∀ call ∈ s.calls, ∀ e ∈ call.params,
      param part e → other part e) :
    IsProgram other lexemes statements := by
  induction h with
  | nil => exact .nil
  | cons hStatement hOthers ih =>
      refine .cons (hStatement.mono fun part hPart => hParam part ?_ _ (List.mem_cons_self ..))
        (ih fun part hPart s hMember => hParam part ?_ s (List.mem_cons_of_mem _ hMember))
      · exact List.subset_append_of_subset_left _ hPart
      · exact List.subset_append_of_subset_right _ hPart

/-! ### The phrases of parameters -/

theorem Listed.exists_item {phrase : List Lexeme → α → Prop} {values : List α}
    (h : Listed phrase lexemes values) : ∀ value ∈ values, ∃ part, phrase part value := by
  induction h with
  | one hItem =>
      rw [List.forall_mem_singleton]
      exact ⟨_, hItem⟩
  | more hItem hComma hOthers ih =>
      rw [List.forall_mem_cons]
      exact ⟨⟨_, hItem⟩, ih⟩

theorem IsCall.exists_param {call : GateCall} (h : IsCall param lexemes call) :
    ∀ e ∈ call.params, ∃ part, param part e := by
  obtain ⟨hName, hParams, hQubits⟩ := h
  cases hParams with
  | absent => exact List.forall_mem_nil _
  | empty hOpening hClosing => exact List.forall_mem_nil _
  | given hOpening hInner hClosing => exact hInner.exists_item

theorem IsBody.exists_param {calls : List GateCall} (h : IsBody param lexemes calls) :
    ∀ call ∈ calls, ∀ e ∈ call.params, ∃ part, param part e := by
  induction h with
  | nil => exact List.forall_mem_nil _
  | cons hCall hSemicolon hOthers ih =>
      rw [List.forall_mem_cons]
      exact ⟨hCall.exists_param, ih⟩

theorem IsStatement.exists_param {statement : Statement}
    (h : IsStatement param lexemes statement) :
    ∀ call ∈ statement.calls, ∀ e ∈ call.params, ∃ part, param part e := by
  cases h with
  | gate hWord hHeader hOpening hBody hClosing => exact hBody.exists_param
  | call hCall hSemicolon =>
      rw [Statement.calls, List.forall_mem_singleton]
      exact hCall.exists_param
  | condition hWord hOpening hName hEquals hNumber hClosing hCall hSemicolon =>
      rw [Statement.calls, List.forall_mem_singleton]
      exact hCall.exists_param
  | _ => exact List.forall_mem_nil _

/-- Every parameter of a program has a phrase. -/
theorem IsProgram.exists_param {statements : List Statement}
    (h : IsProgram param lexemes statements) :
    ∀ s ∈ statements, ∀ call ∈ s.calls, ∀ e ∈ call.params, ∃ part, param part e := by
  induction h with
  | nil => exact List.forall_mem_nil _
  | cons hStatement hOthers ih =>
      rw [List.forall_mem_cons]
      exact ⟨hStatement.exists_param, ih⟩

/-! ### Within the limits or refused -/

/-- An expression, whatever its nesting is. -/
def IsFormula (lexemes : List Lexeme) (e : Expr) : Prop := ∃ cost, Derives 0 lexemes e cost

theorem IsExpression.isFormula {e : Expr} (h : IsExpression lexemes e) : IsFormula lexemes e := by
  obtain ⟨cost, hDerives, -, -⟩ := h
  exact ⟨cost, hDerives⟩

theorem isFormula_neverCloses : NeverCloses IsFormula := by
  rintro lexemes e ⟨cost, hDerives⟩
  exact derives_neverCloses hDerives

/-- The phrases of some kind that are expressions within the limits. -/
def Within (param : List Lexeme → Expr → Prop) (lexemes : List Lexeme) (e : Expr) : Prop :=
  param lexemes e ∧ IsExpression lexemes e

theorem IsCall.isExpression {call : GateCall} (h : IsCall (Within param) lexemes call) :
    IsCall IsExpression lexemes call :=
  h.mono fun _ _ _ _ hWithin => hWithin.2

theorem IsStatement.isExpression {statement : Statement}
    (h : IsStatement (Within param) lexemes statement) :
    IsStatement IsExpression lexemes statement :=
  h.mono fun _ _ _ _ _ _ hWithin => hWithin.2

theorem IsProgram.isExpression {statements : List Statement}
    (h : IsProgram (Within param) lexemes statements) :
    IsProgram IsExpression lexemes statements :=
  h.mono fun _ _ _ _ _ _ _ _ hWithin => hWithin.2

theorem IsFormula.isExpression_or_refused {e : Expr} (h : IsFormula lexemes e) :
    IsExpression lexemes e ∨ ∀ (next : Lexeme) (sign : Symbol) (rest : List Lexeme),
      next.token = .symbol sign → operator? sign = none →
        RefusesNesting expression (lexemes ++ next :: rest) := by
  obtain ⟨cost, hDerives⟩ := h
  by_cases hWithin : cost < nestingLimit ∧ e.height ≤ nestingLimit
  · exact Or.inl ⟨cost, hDerives, hWithin⟩
  · exact Or.inr fun next sign rest hNext hSign =>
      expression_refuses hDerives (by omega) hNext hSign rest

variable (hParam : ∀ part e, param part e → IsFormula part e)
include hParam

/-- The parameters of a list are within the limits, or the list is refused. -/
theorem Listed.within_or_refused {params : List Expr} (h : Listed param lexemes params) :
    Listed (Within param) lexemes params ∨ ∀ (closing : Lexeme) (rest : List Lexeme),
      closing.token = .symbol .rightParen →
        RefusesNesting (separated expression expression_shortens) (lexemes ++ closing :: rest) := by
  induction h with
  | @one lexemes e hItem =>
      obtain hWithin | hRefused := (hParam _ _ hItem).isExpression_or_refused
      · exact Or.inl (.one ⟨hItem, hWithin⟩)
      · refine Or.inr fun closing rest hClosing => ?_
        obtain ⟨behind, hError⟩ := hRefused closing _ rest hClosing rfl
        exact ⟨behind, separated_error _ hError⟩
  | @more comma first others e params hItem hComma hOthers ih =>
      obtain hWithin | hRefused := (hParam _ _ hItem).isExpression_or_refused
      · -- the first parameter is read, so that the others decide
        obtain hRest | hRefused := ih
        · exact Or.inl (.more ⟨hItem, hWithin⟩ hComma hRest)
        · refine Or.inr fun closing rest hClosing => ?_
          obtain ⟨behind, hError⟩ := hRefused closing rest hClosing
          have hRead := expression_completes _ _ hWithin comma (others ++ closing :: rest) .comma
            hComma rfl
          rw [List.append_assoc, List.cons_append]
          exact ⟨behind, separated_step_error _ hRead hComma hError⟩
      · refine Or.inr fun closing rest hClosing => ?_
        obtain ⟨behind, hError⟩ := hRefused comma _ (others ++ closing :: rest) hComma rfl
        rw [List.append_assoc, List.cons_append]
        exact ⟨behind, separated_error _ hError⟩

/-- The parameters of a call are within the limits, or the call is refused, whatever stands
behind it. -/
theorem IsCall.within_or_refused {call : GateCall} (h : IsCall param lexemes call) :
    IsCall (Within param) lexemes call ∨ ∀ rest, RefusesNesting gateCall (lexemes ++ rest) := by
  obtain @⟨name, gate, front, second, params, qubits, hName, hParams, hQubits⟩ := h
  cases hParams with
  | absent => exact Or.inl (.mk hName .absent hQubits)
  | empty hOpening hClosing => exact Or.inl (.mk hName (.empty hOpening hClosing) hQubits)
  | @given opening closing inner params hOpening hInner hClosing =>
      obtain hWithin | hRefused := hInner.within_or_refused hParam
      · exact Or.inl (.mk hName (.given hOpening hWithin hClosing) hQubits)
      · refine Or.inr fun rest => ?_
        have hSplit : (name :: ((opening :: (inner ++ [closing])) ++ second)) ++ rest =
            name :: opening :: (inner ++ closing :: (second ++ rest)) := by simp
        obtain ⟨behind, hError⟩ := hRefused closing (second ++ rest) hClosing
        obtain ⟨first, others, rfl, hFirst⟩ := hInner.not_closing
          fun part e hItem => isFormula_neverCloses part e (hParam part e hItem)
        have hOptional : expressions ((first :: others) ++ closing :: (second ++ rest)) =
            .error (tooDeep behind) := by
          rw [List.cons_append] at hError ⊢
          rw [expressions_eq_optional]
          simp only [optional, ifAhead, accept?_other hFirst]
          exact hError
        rw [hSplit, gateCall]
        refine RefusesNesting.of_ok (identifier_cons hName _) (RefusesNesting.bind ⟨behind, ?_⟩ _)
        simp only [inParentheses, ifNext, accept?_cons hOpening]
        exact endedBy_of_error hOptional

/-- The parameters of a body are within the limits, or the body is refused. -/
theorem IsBody.within_or_refused {calls : List GateCall} (h : IsBody param lexemes calls) :
    IsBody (Within param) lexemes calls ∨ ∀ rest, RefusesNesting body (lexemes ++ rest) := by
  unfold body
  induction h with
  | nil => exact Or.inl .nil
  | @cons semicolon first others call calls hCall hSemicolon hOthers ih =>
      obtain ⟨head, more, rfl, hHead⟩ := isCall_head hCall
      have hSplit (rest : List Lexeme) : ((head :: more) ++ semicolon :: others) ++ rest =
          (head :: more) ++ semicolon :: (others ++ rest) := by simp
      have hOther (rest : List Lexeme) :
          beginsWith .rightBrace ((head :: more) ++ rest) = false := by
        simp [beginsWith, accept?_other (show head.token ≠ .symbol .rightBrace by simp [hHead])]
      have hBegins (rest : List Lexeme) :
          beginsWithIdentifier ((head :: more) ++ rest) = true := by
        simp [beginsWithIdentifier, hHead, Token.kind]
      obtain hWithin | hRefused := hCall.within_or_refused hParam
      · -- the first call is read, so that the others decide
        obtain hRest | hRefused := ih
        · exact Or.inl (.cons hWithin hSemicolon hRest)
        · refine Or.inr fun rest => ?_
          obtain ⟨behind, hError⟩ := hRefused rest
          have hRead : bodyCall ((head :: more) ++ semicolon :: (others ++ rest)) =
              .ok (call, others ++ rest) := by
            rw [bodyCall, if_pos (hBegins _)]
            exact closed_gateCall hWithin.isExpression hSemicolon _
          rw [hSplit]
          exact ⟨behind, repeated_step_error _ (hOther _) hRead hError⟩
      · refine Or.inr fun rest => ?_
        obtain ⟨behind, hError⟩ := hRefused (semicolon :: (others ++ rest))
        rw [hSplit]
        refine ⟨behind, repeated_error _ (hOther _) ?_⟩
        rw [bodyCall, if_pos (hBegins _)]
        exact endedBy_of_error hError

/-- The parameters of a statement are within the limits, or the statement is refused. -/
theorem IsStatement.within_or_refused {mode : Mode} {found : Statement}
    (h : IsStatement param lexemes found) (hMode : mode.Allows found) :
    IsStatement (Within param) lexemes found ∨
      ∀ rest, RefusesNesting (statement mode) (lexemes ++ rest) := by
  cases h with
  | @gate word opening closing first second header calls hWord hHeader hOpening hBody hClosing =>
      obtain hWithin | hRefused := hBody.within_or_refused hParam
      · exact Or.inl (.gate hWord hHeader hOpening hWithin hClosing)
      · refine Or.inr fun rest => ?_
        have hSplit : (word :: (first ++ opening :: (second ++ [closing]))) ++ rest =
            word :: (first ++ opening :: (second ++ closing :: rest)) := by simp
        have hHeaderRead := header_completes _ _ hHeader opening (second ++ closing :: rest)
          .leftBrace hOpening (by decide)
        have hReader : statementFor? mode word.token = some definition := by
          cases mode <;> simp [hWord, statementFor?]
        rw [hSplit, RefusesNesting, statement, hReader]
        refine RefusesNesting.of_ok (keyword_cons hWord _) (RefusesNesting.of_ok hHeaderRead ?_)
        refine RefusesNesting.of_ok (symbol_cons hOpening _) (RefusesNesting.bind ?_ _)
        exact hRefused (closing :: rest)
  | @call semicolon lexemes application hCall hSemicolon =>
      obtain hWithin | hRefused := hCall.within_or_refused hParam
      · exact Or.inl (.call hWithin hSemicolon)
      · refine Or.inr fun rest => ?_
        obtain ⟨name, others, rfl, hName⟩ := isCall_head hCall
        obtain ⟨behind, hError⟩ := hRefused ([semicolon] ++ rest)
        cases mode with
        | library => simp [Mode.Allows] at hMode
        | circuit =>
            rw [List.append_assoc]
            refine ⟨behind, ?_⟩
            rw [List.cons_append] at hError ⊢
            simp only [statement, statementFor?, hName]
            exact endedBy_of_error (bind_of_error hError)
  | @condition word opening name equals number closing semicolon lexemes register value application
      hWord hOpening hName hEquals hNumber hClosing hCall hSemicolon =>
      obtain hWithin | hRefused := hCall.within_or_refused hParam
      · exact Or.inl
          (.condition hWord hOpening hName hEquals hNumber hClosing hWithin hSemicolon)
      · refine Or.inr fun rest => ?_
        cases mode with
        | library => simp [Mode.Allows] at hMode
        | circuit =>
            have hSplit : (word :: opening :: name :: equals :: number :: closing ::
                (lexemes ++ [semicolon])) ++ rest = word :: opening :: name :: equals :: number ::
                  closing :: (lexemes ++ ([semicolon] ++ rest)) := by simp
            rw [hSplit, RefusesNesting]
            simp only [statement, statementFor?, hWord]
            refine RefusesNesting.bind ?_ _
            refine RefusesNesting.of_ok (keyword_cons hWord _) ?_
            refine RefusesNesting.of_ok (symbol_cons hOpening _) ?_
            refine RefusesNesting.of_ok (identifier_cons hName _) ?_
            refine RefusesNesting.of_ok (symbol_cons hEquals _) ?_
            refine RefusesNesting.of_ok (integer_cons hNumber _) ?_
            refine RefusesNesting.of_ok (symbol_cons hClosing _) ?_
            exact RefusesNesting.bind (hRefused _) _
  | version hWord hNumber hSemicolon => exact Or.inl (.version hWord hNumber hSemicolon)
  | inclusion hWord hPath hSemicolon => exact Or.inl (.inclusion hWord hPath hSemicolon)
  | register hWord hName hOpening hNumber hClosing hSemicolon =>
      exact Or.inl (.register hWord hName hOpening hNumber hClosing hSemicolon)
  | opaqueGate hWord hHeader hSemicolon => exact Or.inl (.opaqueGate hWord hHeader hSemicolon)
  | measure hWord hSource hArrow hTarget hSemicolon =>
      exact Or.inl (.measure hWord hSource hArrow hTarget hSemicolon)
  | reset hWord hTarget hSemicolon => exact Or.inl (.reset hWord hTarget hSemicolon)
  | barrier hWord hTargets hSemicolon => exact Or.inl (.barrier hWord hTargets hSemicolon)

/-- **Nesting.**  The parameters of a program are within the limits, or its statements are refused
for the nesting of one of them. -/
theorem IsProgram.within_or_refused {mode : Mode} {found : List Statement}
    (h : IsProgram param lexemes found) (hMode : ∀ s ∈ found, mode.Allows s) :
    IsProgram (Within param) lexemes found ∨ RefusesNesting (statements mode) lexemes := by
  unfold statements
  induction h with
  | nil => exact Or.inl .nil
  | @cons first others found rest hStatement hOthers ih =>
      rw [List.forall_mem_cons] at hMode
      have hMore : (first ++ others).isEmpty = false := by
        obtain ⟨head, more, rfl, -⟩ := isStatement_head hStatement
        rfl
      obtain hWithin | hRefused := hStatement.within_or_refused hParam hMode.1
      · -- the first statement is read, so that the others decide
        obtain hRest | ⟨behind, hError⟩ := ih hMode.2
        · exact Or.inl (.cons hWithin hRest)
        · have hRead := statement_completes hWithin.isExpression hMode.1 others
          exact Or.inr ⟨behind, repeated_step_error _ hMore hRead hError⟩
      · obtain ⟨behind, hError⟩ := hRefused others
        exact Or.inr ⟨behind, repeated_error _ hMore hError⟩

end Grammar
end QuantumCircuit
