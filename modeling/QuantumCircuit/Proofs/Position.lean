import Mathlib.Algebra.Group.Nat.Defs
import Mathlib.Data.List.DropRight
import QuantumCircuit.Position

/-!
# Places counted afresh

The place of a character is carried along while a text is read.  It is also known from the text in
front of the character alone: its line feeds make up the line, and what follows the last of them
makes up the column.  These are numbers, and the counters of a place are words, so that the two
agree as long as the words have room for the numbers.

* `Position.after_behind` : what is carried along is what is counted afresh, in words.
* `Position.shows_behind` : a place is the true one exactly if the counters have room for it.
* `Position.overflowsOver_start` : the counters have room for every place in a text exactly if none
  of them overflows.
* `Position.Shows.before` : places in the order of the text.
* `Position.hasRoom_or_uniform` : how many characters the counters have room for.
-/

namespace QuantumCircuit
namespace Position

/-- The line behind a text: one for each line feed, and counted from 1. -/
def lineBehind (text : List Char) : Nat := text.count '\n' + 1

/-- The column behind a text: one for each character behind the last line feed, and counted
from 1. -/
def columnBehind (text : List Char) : Nat := (text.rtakeWhile (· ≠ '\n')).length + 1

/-- The place behind a text, in words. -/
def behind (text : List Char) : Position := ⟨lineBehind text, columnBehind text⟩

theorem lineBehind_concat (text : List Char) (c : Char) :
    lineBehind (text ++ [c]) = if c = '\n' then lineBehind text + 1 else lineBehind text := by
  by_cases hBreak : c = '\n' <;> simp [lineBehind, hBreak]

theorem columnBehind_concat (text : List Char) (c : Char) :
    columnBehind (text ++ [c]) = if c = '\n' then 1 else columnBehind text + 1 := by
  by_cases hBreak : c = '\n'
  · subst hBreak
    rw [columnBehind, List.rtakeWhile_concat_neg _ _ _ (by simp)]
    simp
  · rw [columnBehind, List.rtakeWhile_concat_pos _ _ _ (by simpa using hBreak)]
    simp [columnBehind, hBreak]

theorem behind_concat (text : List Char) (c : Char) :
    behind (text ++ [c]) = (behind text).advance c := by
  rw [behind, lineBehind_concat, columnBehind_concat, advance]
  split <;> simp [behind, UInt32.ofNat_add]

/-- Going on from the place behind a text leads behind the longer text. -/
theorem after_behind (front text : List Char) :
    (behind front).after text = behind (front ++ text) := by
  induction text generalizing front with
  | nil => simp
  | cons c rest ih => rw [after_cons, ← behind_concat, ih, List.append_assoc, List.singleton_append]

/-! ### Room for the counters -/

/-- The counters have words for the place behind a text. -/
def HasRoom (text : List Char) : Prop := lineBehind text < 2 ^ 32 ∧ columnBehind text < 2 ^ 32

/-- The counters of the place are the numbers that are counted afresh. -/
structure Shows (place : Position) (text : List Char) : Prop where
  line : place.line.toNat = lineBehind text
  column : place.column.toNat = columnBehind text

theorem Shows.hasRoom {place : Position} {text : List Char} (h : place.Shows text) :
    HasRoom text :=
  ⟨h.line ▸ place.line.toNat_lt, h.column ▸ place.column.toNat_lt⟩

/-- The place behind a text is the true one exactly if there is room for it. -/
theorem shows_behind {text : List Char} : (behind text).Shows text ↔ HasRoom text :=
  ⟨Shows.hasRoom, fun h => ⟨UInt32.toNat_ofNat_of_lt' h.1, UInt32.toNat_ofNat_of_lt' h.2⟩⟩

theorem Shows.one_le {place : Position} {text : List Char} (h : place.Shows text) :
    1 ≤ place.line ∧ 1 ≤ place.column := by
  rw [UInt32.le_iff_toNat_le, UInt32.le_iff_toNat_le, h.line, h.column]
  exact ⟨Nat.le_add_left _ _, Nat.le_add_left _ _⟩

/-- A word goes on with zero exactly if there is no word for the next number. -/
theorem ofNat_add_one_ne_zero {count : Nat} (h : count < 2 ^ 32) :
    UInt32.ofNat count + 1 ≠ 0 ↔ count + 1 < 2 ^ 32 := by
  rw [ne_eq, ← UInt32.toNat_inj, UInt32.toNat_add, UInt32.toNat_ofNat_of_lt' h]
  change ¬(count + 1) % 2 ^ 32 = 0 ↔ _
  omega

/-- Behind one more character there is room exactly if no counter overflows. -/
theorem overflows_behind {text : List Char} (h : HasRoom text) (c : Char) :
    (behind text).overflows c = false ↔ HasRoom (text ++ [c]) := by
  rw [overflows, HasRoom, lineBehind_concat, columnBehind_concat]
  split
  · rw [decide_eq_false_iff_not]
    exact (ofNat_add_one_ne_zero h.1).trans (and_iff_left (by decide)).symm
  · rw [decide_eq_false_iff_not]
    exact (ofNat_add_one_ne_zero h.2).trans (and_iff_right h.1).symm

/-- The counters have words for all places in a text. -/
def RoomIn (text : List Char) : Prop := ∀ front, front <+: text → HasRoom front

theorem overflowsOver_behind {front : List Char} (h : HasRoom front) (text : List Char) :
    (behind front).overflowsOver text = false ↔
      ∀ more, more <+: text → HasRoom (front ++ more) := by
  induction text generalizing front with
  | nil => simpa [overflowsOver] using h
  | cons c rest ih =>
      rw [overflowsOver, Bool.or_eq_false_iff, overflows_behind h, ← behind_concat]
      constructor
      · rintro ⟨hNext, hRest⟩ more hMore
        rcases List.prefix_cons_iff.mp hMore with rfl | ⟨others, rfl, hOthers⟩
        · simpa using h
        · simpa using (ih hNext).mp hRest others hOthers
      · intro hMore
        have hNext : HasRoom (front ++ [c]) := hMore [c] (by simp)
        refine ⟨hNext, (ih hNext).mpr fun others hOthers => ?_⟩
        simpa using hMore (c :: others) (by simpa using hOthers)

/-- There is room for every place in a text exactly if no counter overflows on the way. -/
theorem overflowsOver_start {text : List Char} :
    start.overflowsOver text = false ↔ RoomIn text := by
  have hNil : HasRoom [] := ⟨by decide, by decide⟩
  exact overflowsOver_behind hNil text

/-! ### The order of places -/

/-- The place stands on an earlier line, or further left on the same line. -/
def Before (first second : Position) : Prop :=
  first.line < second.line ∨ first.line = second.line ∧ first.column < second.column

/-- What is appended leads to a later line, or further right on the same line. -/
theorem lineBehind_append (front text : List Char) :
    lineBehind front < lineBehind (front ++ text) ∨
      lineBehind front = lineBehind (front ++ text) ∧
        columnBehind front + text.length = columnBehind (front ++ text) := by
  induction text using List.reverseRecOn with
  | nil => simp
  | append_singleton text c ih =>
      rw [← List.append_assoc, lineBehind_concat, columnBehind_concat]
      split
      · exact Or.inl (by omega)
      · simpa [← Nat.add_assoc] using ih

/-- A longer text leads to a later place. -/
theorem Shows.before {first second : Position} {front text : List Char} (hFirst : first.Shows front)
    (hSecond : second.Shows (front ++ text)) (hSome : text ≠ []) : first.Before second := by
  have hLength := List.length_pos_iff.mpr hSome
  rw [Before, UInt32.lt_iff_toNat_lt, UInt32.lt_iff_toNat_lt, ← UInt32.toNat_inj, hFirst.line,
    hFirst.column, hSecond.line, hSecond.column]
  have hCases := lineBehind_append front text
  omega

/-! ### How far the counters get -/

/-- Every character moves one of the counters by one, and a line feed sets the other one back. -/
theorem line_add_column_le (text : List Char) :
    lineBehind text + columnBehind text ≤ text.length + 2 := by
  induction text using List.reverseRecOn with
  | nil => exact Nat.le_refl _
  | append_singleton text c ih =>
      rw [lineBehind_concat, columnBehind_concat, List.length_append, List.length_singleton]
      have hColumn : 1 ≤ columnBehind text := Nat.le_add_left _ _
      split <;> omega

/-- There is room behind a text that is short enough. -/
theorem hasRoom_of_length {text : List Char} (h : text.length + 1 < 2 ^ 32) : HasRoom text := by
  have hSum := line_add_column_le text
  have hLine : 1 ≤ lineBehind text := Nat.le_add_left _ _
  have hColumn : 1 ≤ columnBehind text := Nat.le_add_left _ _
  constructor <;> omega

theorem roomIn_of_length {text : List Char} (h : text.length + 1 < 2 ^ 32) : RoomIn text := by
  intro front hFront
  have hLength := hFront.length_le
  exact hasRoom_of_length (by omega)

/-- Behind `2 ^ 32 - 1` characters there is room, too, unless all of them are line feeds, or none
of them is. -/
theorem hasRoom_or_uniform {text : List Char} (h : text.length < 2 ^ 32) :
    HasRoom text ∨ text.length + 1 = 2 ^ 32 ∧
      ((∀ c ∈ text, c = '\n') ∨ ∀ c ∈ text, c ≠ '\n') := by
  have hSum := line_add_column_le text
  have hColumn : 1 ≤ columnBehind text := Nat.le_add_left _ _
  have hCount := List.count_le_length (l := text) (a := '\n')
  by_cases hShort : text.length + 1 < 2 ^ 32
  · exact Or.inl (hasRoom_of_length hShort)
  have hLength : text.length + 1 = 2 ^ 32 := by omega
  by_cases hAll : text.count '\n' = text.length
  · exact Or.inr ⟨hLength, Or.inl fun c hc => (List.count_eq_length.mp hAll c hc).symm⟩
  by_cases hNone : text.count '\n' = 0
  · refine Or.inr ⟨hLength, Or.inr fun c hc hBreak => ?_⟩
    exact List.count_eq_zero.mp hNone (hBreak ▸ hc)
  · refine Or.inl ⟨?_, ?_⟩ <;> simp only [lineBehind] at * <;> omega

/-- A single line has as many columns as characters, and one more behind them. -/
theorem columnBehind_line {text : List Char} (h : ∀ c ∈ text, c ≠ '\n') :
    columnBehind text = text.length + 1 := by
  have hLine : ∀ c ∈ text, decide (c ≠ '\n') = true := fun c hc => decide_eq_true (h c hc)
  rw [columnBehind, List.rtakeWhile_eq_self_iff.mpr hLine]

end Position
end QuantumCircuit
