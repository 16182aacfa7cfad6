import Mathlib.Data.String.Basic

/-!
# The order of texts is that of their bytes

Texts are compared by their characters, and a character is written as one to four bytes.  A smaller
character is written with a smaller byte where the two first differ, and neither is the beginning
of the other, so that what stands behind them does not matter.

* `Diverges` : two lists differ at a place that both have, and the first one is smaller there.
* `diverges_utf8EncodeChar` : the bytes of a smaller character and of a larger one do so.
* `lt_iff_bytes_lt` : texts are in the order of their bytes.
-/

namespace QuantumCircuit

/-- The bytes of a text in UTF-8. -/
def bytesOf (text : String) : List UInt8 := text.toByteArray.data.toList

theorem bytesOf_eq_flatMap (text : String) :
    bytesOf text = text.toList.flatMap String.utf8EncodeChar := by
  rw [bytesOf, ← String.utf8Encode_toList, List.utf8Encode, List.data_toByteArray]

/-! ### Lists that differ -/

/-- At the first place where the lists differ both have a byte, and that of the first list is the
smaller one. -/
inductive Diverges : List UInt8 → List UInt8 → Prop
  | here {first second : UInt8} {rest others : List UInt8} (hLess : first < second) :
      Diverges (first :: rest) (second :: others)
  | behind {byte : UInt8} {rest others : List UInt8} (hRest : Diverges rest others) :
      Diverges (byte :: rest) (byte :: others)

@[simp]
theorem diverges_cons {first second : UInt8} {rest others : List UInt8} :
    Diverges (first :: rest) (second :: others) ↔
      first < second ∨ first = second ∧ Diverges rest others := by
  constructor
  · rintro (hLess | hRest)
    · exact .inl hLess
    · exact .inr ⟨rfl, hRest⟩
  · rintro (hLess | ⟨rfl, hRest⟩)
    · exact .here hLess
    · exact .behind hRest

@[simp]
theorem not_diverges_nil (bytes : List UInt8) : ¬ Diverges bytes [] := nofun

/-- Lists that differ are in order, whatever stands behind them. -/
theorem Diverges.append_lt {first second : List UInt8} (h : Diverges first second)
    (rest others : List UInt8) : first ++ rest < second ++ others := by
  induction h with
  | here hLess => exact List.cons_lt_cons_iff.mpr (.inl hLess)
  | behind hRest ih => exact List.cons_lt_cons_iff.mpr (.inr ⟨rfl, ih⟩)

/-! ### Characters and texts -/

/-- The bytes of a smaller character are smaller, and not by being fewer. -/
theorem diverges_utf8EncodeChar {c d : Char} (h : c < d) :
    Diverges (String.utf8EncodeChar c) (String.utf8EncodeChar d) := by
  have hLess : c.val.toNat < d.val.toNat := UInt32.lt_iff_toNat_lt.mp h
  have hBound : d.val.toNat < 0x110000 := by
    have hValid := d.valid
    simp only [UInt32.isValidChar, Nat.isValidChar] at hValid
    omega
  unfold String.utf8EncodeChar
  dsimp only
  generalize c.val.toNat = low at hLess
  generalize d.val.toNat = high at hLess hBound
  -- one case for each pair of lengths; the bytes are digits to the base 64 behind their marks
  have hSquare (n : Nat) : n / 4096 = n / 64 / 64 := by omega
  have hCube (n : Nat) : n / 262144 = n / 64 / 64 / 64 := by omega
  split_ifs <;>
    simp only [diverges_cons, not_diverges_nil, and_false, or_false,
      UInt8.lt_iff_toNat_lt, ← UInt8.toNat_inj, UInt8.toNat_ofNat', hSquare, hCube] <;>
    omega

/-- Texts in order have bytes in order. -/
theorem bytes_lt_of_lt {first second : String} (h : first < second) :
    bytesOf first < bytesOf second := by
  rw [bytesOf_eq_flatMap, bytesOf_eq_flatMap]
  have hChars : List.Lex (· < ·) first.toList second.toList := h
  generalize first.toList = chars at hChars
  generalize second.toList = others at hChars
  induction hChars with
  | @nil c rest =>
      cases hBytes : String.utf8EncodeChar c with
      | nil => exact absurd hBytes String.utf8EncodeChar_ne_nil
      | cons byte bytes =>
          rw [List.flatMap_cons, hBytes]
          exact List.Lex.nil
  | @cons c rest others hRest ih =>
      rw [List.flatMap_cons, List.flatMap_cons]
      exact List.append_left_lt ih
  | @rel c rest d others hLess =>
      rw [List.flatMap_cons, List.flatMap_cons]
      exact (diverges_utf8EncodeChar hLess).append_lt _ _

/-- **Order.**  Texts are in the order of their bytes. -/
theorem lt_iff_bytes_lt {first second : String} :
    first < second ↔ bytesOf first < bytesOf second := by
  constructor
  · exact bytes_lt_of_lt
  · intro hBytes
    rcases lt_trichotomy first second with hLess | rfl | hLess
    · exact hLess
    · exact absurd hBytes (List.lt_irrefl _)
    · exact absurd (bytes_lt_of_lt hLess) (List.lt_asymm hBytes)

end QuantumCircuit
