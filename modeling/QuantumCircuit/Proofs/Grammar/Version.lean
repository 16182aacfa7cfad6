import Mathlib.Data.List.TakeWhile
import QuantumCircuit.Grammar.Statement
import QuantumCircuit.Proofs.Token.Rules

/-!
# Version numbers

A version number has one or two parts with a point between them, and each of them is written in
digits and fits a word of 32 bits.

* `IsVersionText` : the characters of a version number.
* `versionOf?_eq_some` : a version number is read from these characters and from no others.
-/

namespace QuantumCircuit
namespace Grammar

/-- Digits that write a word. -/
structure IsVersionPart (digits : List Char) (part : UInt32) : Prop where
  isDigits : IsDigits digits
  value : Decimal.ofDigits digits = part.toNat

/-- The characters of a version number: digits, or digits, a point and digits. -/
inductive IsVersionText : List Char → UInt32 → UInt32 → Prop
  | whole {digits : List Char} {major : UInt32} (hMajor : IsVersionPart digits major) :
      IsVersionText digits major 0
  | pointed {first second : List Char} {major minor : UInt32} (hMajor : IsVersionPart first major)
      (hMinor : IsVersionPart second minor) :
      IsVersionText (first ++ '.' :: second) major minor

theorem versionPart?_eq_some {digits : List Char} {part : UInt32} :
    versionPart? digits = some part ↔ IsVersionPart digits part := by
  rw [versionPart?]
  by_cases hDigits : IsDigits digits
  · have hTest : (digits.isEmpty || !digits.all Char.isDigit) = false := by
      rw [Bool.or_eq_false_iff, List.isEmpty_eq_false_iff, Bool.not_eq_false', List.all_eq_true]
      exact hDigits
    rw [hTest]
    simp only [Bool.false_eq_true, if_false]
    constructor
    · intro h
      split at h
      · rename_i hBound
        cases h
        exact ⟨hDigits, (UInt32.toNat_ofNat_of_lt hBound).symm⟩
      · cases h
    · rintro ⟨-, hValue⟩
      have hBound : Decimal.ofDigits digits < Nat.pow 2 32 := hValue ▸ part.toNat_lt
      rw [if_pos hBound, hValue, UInt32.ofNat_toNat]
  · have hTest : (digits.isEmpty || !digits.all Char.isDigit) = true := by
      by_contra hOther
      rw [Bool.not_eq_true, Bool.or_eq_false_iff, List.isEmpty_eq_false_iff, Bool.not_eq_false',
        List.all_eq_true] at hOther
      exact hDigits hOther
    rw [hTest, if_pos rfl]
    constructor
    · intro h
      cases h
    · exact fun h => absurd h.isDigits hDigits

/-- No digit is a point. -/
theorem IsVersionPart.not_point {digits : List Char} {part : UInt32}
    (h : IsVersionPart digits part) : ∀ c ∈ digits, decide (c ≠ '.') = true := by
  intro c hMember
  have hDigit := h.isDigits.2 c hMember
  rw [decide_eq_true_eq]
  rintro rfl
  simp at hDigit

/-- A text without a point, or the parts of a text before and behind its first point. -/
theorem takeWhile_dropWhile_point (text : List Char) :
    (text.takeWhile (· ≠ '.') = text ∧ text.dropWhile (· ≠ '.') = []) ∨
      ∃ second, text.dropWhile (· ≠ '.') = '.' :: second ∧
        text = text.takeWhile (· ≠ '.') ++ '.' :: second := by
  have hSplit := List.takeWhile_append_dropWhile (p := fun c : Char => decide (c ≠ '.')) (l := text)
  cases hBack : text.dropWhile fun c => decide (c ≠ '.') with
  | nil =>
      rw [hBack, List.append_nil] at hSplit
      exact Or.inl ⟨hSplit, rfl⟩
  | cons c second =>
      have hPoint := List.head?_dropWhile_not (fun c : Char => decide (c ≠ '.')) text
      rw [hBack] at hPoint
      have hC : c = '.' := by simpa using hPoint
      subst hC
      rw [hBack] at hSplit
      exact Or.inr ⟨second, rfl, hSplit.symm⟩

/-- Version numbers are read from their characters and from no others. -/
theorem versionOf?_eq_some {text : List Char} {major minor : UInt32} :
    versionOf? text = some (major, minor) ↔ IsVersionText text major minor := by
  constructor
  · intro h
    rw [versionOf?] at h
    obtain ⟨hFront, hBack⟩ | ⟨second, hBack, hText⟩ := takeWhile_dropWhile_point text
    · rw [hFront, hBack] at h
      split at h
      · rename_i hMajor hMinor
        cases h
        have hZero : versionPart? ['0'] = some 0 := by decide
        rw [hZero] at hMinor
        cases hMinor
        exact .whole (versionPart?_eq_some.mp hMajor)
      · cases h
    · rw [hBack] at h
      split at h
      · rename_i hMajor hMinor
        cases h
        rw [hText]
        exact .pointed (versionPart?_eq_some.mp hMajor) (versionPart?_eq_some.mp hMinor)
      · cases h
  · intro h
    rw [versionOf?]
    cases h with
    | whole hMajor =>
        have hZero : versionPart? ['0'] = some 0 := by decide
        rw [List.takeWhile_eq_self_iff.mpr hMajor.not_point,
          List.dropWhile_eq_nil_iff.mpr hMajor.not_point, versionPart?_eq_some.mpr hMajor]
        simp only [hZero]
    | pointed hMajor hMinor =>
        rw [List.takeWhile_append_of_pos hMajor.not_point,
          List.dropWhile_append_of_pos hMajor.not_point]
        simp [versionPart?_eq_some.mpr hMajor, versionPart?_eq_some.mpr hMinor]

end Grammar
end QuantumCircuit
