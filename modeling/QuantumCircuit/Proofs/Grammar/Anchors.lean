import Mathlib.Data.List.Infix
import QuantumCircuit.Proofs.Grammar.Statement
import QuantumCircuit.Proofs.Program.Alike

/-!
# Where the places of a tree come from

A tree takes its places from lexemes: a statement from the one it begins with, a call of a gate
from the gate's name, and a reference from the register's name.

* `Anchor` : the lexemes from which a program takes its places.
* `IsProgram.anchored` : there are no other places in a program.
-/

namespace QuantumCircuit
namespace Grammar

variable {α : Type} {param : List Lexeme → Expr → Prop} {lexemes : List Lexeme}

/-! ### Phrases within phrases -/

theorem Listed.exists_infix {phrase : List Lexeme → α → Prop} {values : List α}
    (h : Listed phrase lexemes values) :
    ∀ value ∈ values, ∃ part, part <:+: lexemes ∧ phrase part value := by
  induction h with
  | one hItem =>
      rw [List.forall_mem_singleton]
      exact ⟨_, List.infix_rfl, hItem⟩
  | @more comma first others value values hItem hComma hOthers ih =>
      rw [List.forall_mem_cons]
      refine ⟨⟨first, (List.prefix_append ..).isInfix, hItem⟩, fun other hOther => ?_⟩
      obtain ⟨part, hPart, hPhrase⟩ := ih other hOther
      exact ⟨part, hPart.trans ⟨first ++ [comma], [], by simp⟩, hPhrase⟩

theorem IsCall.exists_reference {call : GateCall} (h : IsCall param lexemes call) :
    ∀ reference ∈ call.qubits, ∃ part, part <:+: lexemes ∧ IsReference part reference := by
  obtain @⟨name, gate, first, second, params, qubits, hName, hParams, hQubits⟩ := h
  intro reference hReference
  obtain ⟨part, hPart, hPhrase⟩ := hQubits.exists_infix reference hReference
  exact ⟨part, hPart.trans ⟨name :: first, [], by simp⟩, hPhrase⟩

theorem IsBody.exists_call {calls : List GateCall} (h : IsBody param lexemes calls) :
    ∀ call ∈ calls, ∃ part, part <:+: lexemes ∧ IsCall param part call := by
  induction h with
  | nil => exact List.forall_mem_nil _
  | @cons semicolon first others call calls hCall hSemicolon hOthers ih =>
      rw [List.forall_mem_cons]
      refine ⟨⟨first, (List.prefix_append ..).isInfix, hCall⟩, fun other hOther => ?_⟩
      obtain ⟨part, hPart, hPhrase⟩ := ih other hOther
      exact ⟨part, hPart.trans ⟨first ++ [semicolon], [], by simp⟩, hPhrase⟩

theorem IsStatement.exists_call {statement : Statement} (h : IsStatement param lexemes statement) :
    ∀ call ∈ statement.calls, ∃ part, part <:+: lexemes ∧ IsCall param part call := by
  cases h with
  | @gate word opening closing first second header calls hWord hHeader hOpening hBody hClosing =>
      intro call hCall
      obtain ⟨part, hPart, hPhrase⟩ := hBody.exists_call call hCall
      exact ⟨part, hPart.trans ⟨word :: (first ++ [opening]), [closing], by simp⟩, hPhrase⟩
  | call hCall hSemicolon =>
      rw [Statement.calls, List.forall_mem_singleton]
      exact ⟨_, (List.prefix_append ..).isInfix, hCall⟩
  | @condition word opening name equals number closing semicolon part register value application
      hWord hOpening hName hEquals hNumber hClosing hCall hSemicolon =>
      rw [Statement.calls, List.forall_mem_singleton]
      exact ⟨part, ⟨[word, opening, name, equals, number, closing], [semicolon], by simp⟩, hCall⟩
  | _ => exact List.forall_mem_nil _

theorem IsStatement.exists_reference {statement : Statement}
    (h : IsStatement param lexemes statement) :
    ∀ reference ∈ statement.references, ∃ part, part <:+: lexemes ∧ IsReference part reference := by
  -- references in calls are found within the phrases of the calls
  have hCalls : ∀ call ∈ statement.calls, ∀ reference ∈ call.qubits,
      ∃ part, part <:+: lexemes ∧ IsReference part reference := by
    intro call hCall reference hReference
    obtain ⟨whole, hWhole, hPhrase⟩ := h.exists_call call hCall
    obtain ⟨part, hPart, hFound⟩ := hPhrase.exists_reference reference hReference
    exact ⟨part, hPart.trans hWhole, hFound⟩
  cases h with
  | gate hWord hHeader hOpening hBody hClosing =>
      intro reference hReference
      obtain ⟨call, hCall, hMember⟩ := List.mem_flatMap.mp hReference
      exact hCalls call hCall reference hMember
  | call hCall hSemicolon => exact hCalls _ (List.mem_singleton_self _)
  | condition hWord hOpening hName hEquals hNumber hClosing hCall hSemicolon =>
      exact hCalls _ (List.mem_singleton_self _)
  | @measure word arrow semicolon first second source target hWord hSource hArrow hTarget
      hSemicolon =>
      rw [Statement.references, List.forall_mem_cons, List.forall_mem_singleton]
      exact ⟨⟨first, ⟨[word], arrow :: (second ++ [semicolon]), by simp⟩, hSource⟩,
        second, ⟨word :: (first ++ [arrow]), [semicolon], by simp⟩, hTarget⟩
  | @reset word semicolon part target hWord hTarget hSemicolon =>
      rw [Statement.references, List.forall_mem_singleton]
      exact ⟨part, ⟨[word], [semicolon], by simp⟩, hTarget⟩
  | @barrier word semicolon whole targets hWord hTargets hSemicolon =>
      intro reference hReference
      obtain ⟨part, hPart, hPhrase⟩ := hTargets.exists_infix reference hReference
      exact ⟨part, hPart.trans ⟨[word], [semicolon], by simp⟩, hPhrase⟩
  | _ => exact List.forall_mem_nil _

theorem IsProgram.exists_statement {statements : List Statement}
    (h : IsProgram param lexemes statements) :
    ∀ s ∈ statements, ∃ part, part <:+: lexemes ∧ IsStatement param part s := by
  induction h with
  | nil => exact List.forall_mem_nil _
  | @cons first others statement statements hStatement hOthers ih =>
      rw [List.forall_mem_cons]
      refine ⟨⟨first, (List.prefix_append ..).isInfix, hStatement⟩, fun other hOther => ?_⟩
      obtain ⟨part, hPart, hPhrase⟩ := ih other hOther
      exact ⟨part, hPart.trans (List.suffix_append ..).isInfix, hPhrase⟩

/-! ### First lexemes -/

theorem IsReference.exists_first {reference : RegisterRef} (h : IsReference lexemes reference) :
    ∃ first others, lexemes = first :: others ∧ first.token = .identifier reference.register ∧
      first.position = reference.position := by
  cases h with
  | whole hName => exact ⟨_, _, rfl, hName, rfl⟩
  | element hName => exact ⟨_, _, rfl, hName, rfl⟩

theorem IsCall.exists_first {call : GateCall} (h : IsCall param lexemes call) :
    ∃ first others, lexemes = first :: others ∧ first.token = .identifier call.name ∧
      first.position = call.position := by
  obtain ⟨hName, -, -⟩ := h
  exact ⟨_, _, rfl, hName, rfl⟩

theorem IsStatement.exists_first {statement : Statement} (h : IsStatement param lexemes statement) :
    ∃ first others, lexemes = first :: others ∧ first.position = statement.position := by
  cases h with
  | call hCall hSemicolon =>
      obtain ⟨first, others, rfl, -, hPosition⟩ := hCall.exists_first
      exact ⟨first, _, rfl, hPosition⟩
  | _ => exact ⟨_, _, rfl, rfl⟩

/-! ### Anchors -/

/-- Somewhere in the lexemes a phrase of the value begins with the lexeme. -/
def BeginsAt (phrase : List Lexeme → α → Prop) (lexemes : List Lexeme) (value : α)
    (lexeme : Lexeme) : Prop :=
  ∃ others, (lexeme :: others) <:+: lexemes ∧ phrase (lexeme :: others) value

/-- A lexeme from which the statements of a program take a place. -/
inductive Anchor (lexemes : List Lexeme) (statements : List Statement) : Lexeme → Prop
  /-- It begins a statement. -/
  | statement {s : Statement} {lexeme : Lexeme} (hMember : s ∈ statements)
      (hBegins : BeginsAt (IsStatement IsExpression) lexemes s lexeme) :
      Anchor lexemes statements lexeme
  /-- It names the gate of a call. -/
  | gate {s : Statement} {call : GateCall} {lexeme : Lexeme} (hMember : s ∈ statements)
      (hCall : call ∈ s.calls) (hName : lexeme.token = .identifier call.name)
      (hBegins : BeginsAt (IsCall IsExpression) lexemes call lexeme) :
      Anchor lexemes statements lexeme
  /-- It names the register of an argument. -/
  | register {s : Statement} {reference : RegisterRef} {lexeme : Lexeme} (hMember : s ∈ statements)
      (hReference : reference ∈ s.references)
      (hName : lexeme.token = .identifier reference.register)
      (hBegins : BeginsAt IsReference lexemes reference lexeme) :
      Anchor lexemes statements lexeme

theorem BeginsAt.mono {phrase : List Lexeme → α → Prop} {value : α} {lexeme : Lexeme}
    (h : BeginsAt phrase lexemes value lexeme) {longer : List Lexeme}
    (hLonger : lexemes <:+: longer) : BeginsAt phrase longer value lexeme := by
  obtain ⟨others, hPart, hPhrase⟩ := h
  exact ⟨others, hPart.trans hLonger, hPhrase⟩

theorem BeginsAt.mem {phrase : List Lexeme → α → Prop} {value : α} {lexeme : Lexeme}
    (h : BeginsAt phrase lexemes value lexeme) : lexeme ∈ lexemes := by
  obtain ⟨others, hPart, -⟩ := h
  exact hPart.subset (List.mem_cons_self ..)

theorem Anchor.mono {statements : List Statement} {lexeme : Lexeme}
    (h : Anchor lexemes statements lexeme) {longer : List Lexeme} (hLonger : lexemes <:+: longer) :
    Anchor longer statements lexeme := by
  cases h with
  | statement hMember hBegins => exact .statement hMember (hBegins.mono hLonger)
  | gate hMember hCall hName hBegins => exact .gate hMember hCall hName (hBegins.mono hLonger)
  | register hMember hReference hName hBegins =>
      exact .register hMember hReference hName (hBegins.mono hLonger)

/-- An anchor is one of the lexemes. -/
theorem Anchor.mem {statements : List Statement} {lexeme : Lexeme}
    (h : Anchor lexemes statements lexeme) : lexeme ∈ lexemes := by
  cases h with
  | statement hMember hBegins => exact hBegins.mem
  | gate hMember hCall hName hBegins => exact hBegins.mem
  | register hMember hReference hName hBegins => exact hBegins.mem

/-- The place is that of an anchor. -/
def Anchored (lexemes : List Lexeme) (statements : List Statement) (place : Position) : Prop :=
  ∃ lexeme, Anchor lexemes statements lexeme ∧ place = lexeme.position

/-- **Anchors.**  Every place of a program is that of an anchor. -/
theorem IsProgram.anchored {statements : List Statement}
    (h : IsProgram IsExpression lexemes statements) :
    List.Forall₂ (Statement.AlikeAt fun place _ => Anchored lexemes statements place)
      statements statements := by
  refine List.forall₂_same.mpr fun s hs => ?_
  obtain ⟨whole, hWhole, hStatement⟩ := h.exists_statement s hs
  refine Statement.alike_self ?_ (fun call hCall => ?_) fun reference hReference => ?_
  · obtain ⟨first, others, rfl, hPosition⟩ := hStatement.exists_first
    exact ⟨first, .statement hs ⟨others, hWhole, hStatement⟩, hPosition.symm⟩
  · obtain ⟨part, hPart, hPhrase⟩ := hStatement.exists_call call hCall
    obtain ⟨first, others, rfl, hName, hPosition⟩ := hPhrase.exists_first
    exact ⟨first, .gate hs hCall hName ⟨others, hPart.trans hWhole, hPhrase⟩, hPosition.symm⟩
  · obtain ⟨part, hPart, hPhrase⟩ := hStatement.exists_reference reference hReference
    obtain ⟨first, others, rfl, hName, hPosition⟩ := hPhrase.exists_first
    exact ⟨first, .register hs hReference hName ⟨others, hPart.trans hWhole, hPhrase⟩,
      hPosition.symm⟩

end Grammar
end QuantumCircuit
