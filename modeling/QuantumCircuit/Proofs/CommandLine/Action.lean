import Mathlib.Tactic.Common
import QuantumCircuit.CommandLine.Run
import QuantumCircuit.Proofs.Answers

/-!
# What actions do and how they end

An action is put together from steps.  How it ends depends on how its steps end; which files it
writes are those that its steps write, up to the first step that fails.

* `Action.failure?` : why an action fails.
* `Action.writes` : the files that an action writes, in order.
* `Action.KeepsFiles` : an action that writes no file, and the steps that all commands have in
  common.
* `Streams.TakesOutput` : printing does not fail.
-/

namespace QuantumCircuit
namespace CommandLine

namespace Action

variable {α β γ : Type}

/-! ### How an action ends -/

theorem result_bind (action : Action α) (next : α → Action β) :
    (action >>= next).result = action.result >>= fun value => (next value).result := by
  obtain ⟨effects, result⟩ := action
  cases result <;> rfl

theorem result_bind_eq_ok {action : Action α} {next : α → Action β} {value : β} :
    (action >>= next).result = .ok value ↔
      ∃ found, action.result = .ok found ∧ (next found).result = .ok value := by
  rw [result_bind, except_bind_eq_ok]

@[simp]
theorem result_pure (value : α) : (pure value : Action α).result = .ok value := rfl

/-- Why an action fails. -/
def failure? (action : Action α) : Option Failure :=
  match action.result with
  | .ok _ => none
  | .error failure => some failure

/-- Actions that fail alike behind a common step. -/
theorem failure?_bind (first : Action α) {next : α → Action β} {onward : α → Action γ}
    (h : ∀ value, (next value).failure? = (onward value).failure?) :
    (first >>= next).failure? = (first >>= onward).failure? := by
  rw [failure?, failure?, result_bind, result_bind]
  cases first.result with
  | ok value => exact h value
  | error failure => rfl

/-- A last step that cannot fail makes no difference. -/
theorem failure?_bind_none (first : Action α) {next : α → Action β}
    (h : ∀ value, (next value).failure? = none) : (first >>= next).failure? = first.failure? := by
  rw [failure?, failure?, result_bind]
  cases first.result with
  | ok value => exact h value
  | error failure => rfl

/-! ### What an action writes -/

/-- The files that an action writes, in order. -/
def writes (action : Action α) : List WrittenFile := action.effects.filterMap Effect.file?

theorem writes_bind_of_ok {action : Action α} {value : α} (h : action.result = .ok value)
    (next : α → Action β) : (action >>= next).writes = action.writes ++ (next value).writes := by
  obtain ⟨effects, result⟩ := action
  cases h
  exact List.filterMap_append ..

theorem writes_bind_of_error {action : Action α} {failure : Failure}
    (h : action.result = .error failure) (next : α → Action β) :
    (action >>= next).writes = action.writes := by
  obtain ⟨effects, result⟩ := action
  cases h
  rfl

/-- The action writes no file. -/
def KeepsFiles (action : Action α) : Prop := action.writes = []

theorem KeepsFiles.bind {action : Action α} {next : α → Action β} (h : action.KeepsFiles)
    (hNext : ∀ value, (next value).KeepsFiles) : (action >>= next).KeepsFiles := by
  cases hResult : action.result with
  | ok value =>
      have hNone := hNext value
      rw [KeepsFiles] at h hNone ⊢
      rw [writes_bind_of_ok hResult, h, hNone, List.append_nil]
  | error failure =>
      rw [KeepsFiles, writes_bind_of_error hResult]
      exact h

theorem keepsFiles_pure (value : α) : (pure value : Action α).KeepsFiles := rfl

theorem keepsFiles_fail (message : String) : (fail message : Action α).KeepsFiles := rfl

theorem keepsFiles_orFail (message : String) (found : Option α) :
    (orFail message found).KeepsFiles := by
  cases found <;> rfl

theorem keepsFiles_ofChecked (result : Except Diagnostic α) : (ofChecked result).KeepsFiles := by
  cases result <;> rfl

theorem result_orFail_eq_ok {message : String} {found : Option α} {value : α} :
    (orFail message found).result = .ok value ↔ found = some value := by
  cases found <;> simp [orFail, fail, done]

theorem result_ofChecked_eq_ok {result : Except Diagnostic α} {value : α} :
    (ofChecked result).result = .ok value ↔ result = .ok value := by
  cases result <;> simp [ofChecked, fail, done]

end Action

/-! ### Printing -/

/-- The standard output takes all that is printed. -/
def Streams.TakesOutput (streams : Streams) : Prop := ∀ text, streams.prints text = true

namespace Surroundings

variable (surroundings : Surroundings)

theorem keepsFiles_print (text : String) : (surroundings.print text).KeepsFiles := by
  rw [print]
  split <;> rfl

theorem keepsFiles_printLines (lines : List String) :
    (surroundings.printLines lines).KeepsFiles := by
  induction lines with
  | nil => exact Action.keepsFiles_pure ()
  | cons line lines ih => exact (surroundings.keepsFiles_print _).bind fun _ => ih

/-- A text is printed, or the run ends with the exit code of a panic. -/
theorem result_print (text : String) :
    (surroundings.print text).result =
      if surroundings.streams.prints text then .ok () else .error .panicked := by
  rw [print]
  split <;> rfl

variable {surroundings} (hOutput : surroundings.streams.TakesOutput)
include hOutput

theorem failure?_print (text : String) : (surroundings.print text).failure? = none := by
  rw [Action.failure?, result_print, if_pos (hOutput text)]

theorem failure?_printLines (lines : List String) :
    (surroundings.printLines lines).failure? = none := by
  induction lines with
  | nil => rfl
  | cons line lines ih =>
      have hFirst : (surroundings.printLine line).failure? = none := failure?_print hOutput _
      exact (Action.failure?_bind_none _ fun _ => ih).trans hFirst

end Surroundings

/-! ### Steps that all commands have in common -/

section Steps

variable (surroundings : Surroundings) (options : Options) (input : String)

theorem keepsFiles_source : (surroundings.source input).KeepsFiles := by
  rw [Surroundings.source]
  split
  · exact Action.keepsFiles_orFail ..
  · split
    · exact Action.keepsFiles_fail _
    · exact Action.keepsFiles_orFail ..

theorem keepsFiles_options (readers : Readers) (config : Option String) (noCore : Bool) :
    (surroundings.options readers config noCore).KeepsFiles := by
  cases config with
  | none => exact Action.keepsFiles_pure _
  | some path =>
      exact (Action.keepsFiles_orFail ..).bind fun text =>
        (Action.keepsFiles_orFail ..).bind fun configured => Action.keepsFiles_pure _

theorem keepsFiles_startSession : (startSession options).KeepsFiles := Action.keepsFiles_orFail ..

theorem keepsFiles_checkedProgram : (checkedProgram surroundings options input).KeepsFiles :=
  (keepsFiles_source surroundings input).bind fun _ =>
    (keepsFiles_startSession options).bind fun _ =>
      (Action.keepsFiles_ofChecked _).bind fun _ => Action.keepsFiles_pure _

theorem startSession_eq_ok {options : Options} {session : Session} :
    (startSession options).result = .ok session ↔ Session.start options = .ok session := by
  rw [startSession, Action.result_orFail_eq_ok]
  cases Session.start options <;> simp [Except.toOption]

theorem checkedProgram_eq_ok {surroundings : Surroundings} {options : Options} {input : String}
    {program : Program} :
    (checkedProgram surroundings options input).result = .ok program ↔
      ∃ source session checked, (surroundings.source input).result = .ok source ∧
        Session.start options = .ok session ∧ session.parse source = .ok checked ∧
        checked.program = program := by
  simp only [checkedProgram, Action.result_bind_eq_ok, startSession_eq_ok,
    Action.result_ofChecked_eq_ok, Action.result_pure, Except.ok.injEq]
  constructor
  · rintro ⟨source, hSource, session, hSession, checked, hParse, rfl⟩
    exact ⟨source, session, checked, hSource, hSession, hParse, rfl⟩
  · rintro ⟨source, session, checked, hSource, hSession, hParse, rfl⟩
    exact ⟨source, hSource, session, hSession, checked, hParse, rfl⟩

end Steps

end CommandLine
end QuantumCircuit
