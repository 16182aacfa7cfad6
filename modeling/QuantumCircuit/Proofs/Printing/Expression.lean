import QuantumCircuit.Proofs.Grammar.Expression
import QuantumCircuit.Proofs.Token.Scan

/-!
# Printed expressions

The text of an expression is scanned into the marks that its tree prescribes
(`Expr.text_shows`), and lexemes with these marks are derived as the tree
(`Expr.derives_of_marks`): parentheses stand wherever the levels of the grammar need them.

The nesting of the derivation is that of the printed text.  It differs from the nesting of the
text that the tree was read from, because the printer chooses the parentheses; `Expr.cost_lt`
bounds it by twice the height of the tree.
-/

namespace QuantumCircuit

open Grammar

/-! ### Texts and marks -/

/-- In front of a delimiter, the text is scanned into the marks. -/
def Shows (text : String) (marks : List Mark) : Prop :=
  ∀ rest, Delimited rest →
    scan (text.toList ++ rest) = (scan rest).map fun more => marks ++ more

/-- The mark of a symbol. -/
def signMark (sign : Symbol) : Mark := ⟨.symbol sign, sign.text⟩

/-- The mark of a keyword. -/
def keywordMark (word : Keyword) : Mark := ⟨.keyword word, word.text⟩

/-- The mark of a name. -/
def nameMark (name : String) : Mark := ⟨.identifier name, name⟩

/-- The mark of a word of 64 bits. -/
def integerMark (value : UInt64) : Mark := ⟨.integer value, toString value.toNat⟩

theorem token_of_mark {lexeme : Lexeme} {token : Token} {text : String}
    (h : lexeme.mark = ⟨token, text⟩) : lexeme.token = token :=
  congrArg Mark.token h

theorem shows_name {name : String} (h : IsName name) : Shows name [nameMark name] :=
  fun rest hRest => by
    rw [scan_name h hRest]
    rfl

/-! ### The marks of an expression -/

/-- The symbol of an operator. -/
def Operator.symbol : Operator → Symbol
  | .add => .plus
  | .sub => .minus
  | .mul => .star
  | .div => .slash
  | .pow => .caret

theorem Operator.text_symbol (operator : Operator) : operator.symbol.text = operator.sign := by
  cases operator <;> rfl

theorem Operator.operator?_symbol (operator : Operator) :
    operator? operator.symbol = some operator := by
  cases operator <;> rfl

/-- Marks in parentheses, if they need them. -/
def encloseMarks (needed : Bool) (marks : List Mark) : List Mark :=
  if needed then signMark .leftParen :: (marks ++ [signMark .rightParen]) else marks

namespace Expr

/-- The expression can be written down: its numbers are finite and have no sign, and its
identifiers are names. -/
def Legible : Expr → Prop
  | number value => value.isFinite = true ∧ value.isNegative = false
  | pi => True
  | identifier name => IsName name
  | neg operand => operand.Legible
  | binary _ left right => left.Legible ∧ right.Legible
  | call _ argument => argument.Legible

/-- The marks of the text of an expression. -/
def marks : Expr → List Mark
  | number value => [⟨literalToken value, literalText value⟩]
  | pi => [keywordMark .pi]
  | identifier name => [nameMark name]
  | neg operand => signMark .minus :: encloseMarks (parenthesesNeg operand) operand.marks
  | binary operator left right =>
    encloseMarks (parenthesesLeft operator left) left.marks ++
      signMark operator.symbol :: encloseMarks (parenthesesRight operator right) right.marks
  | call function argument =>
    ⟨.function function, function.name⟩ ::
      signMark .leftParen :: (argument.marks ++ [signMark .rightParen])

/-- The cost of an operand that may stand in parentheses. -/
def encloseCost (needed : Bool) (cost : Nat) : Nat := if needed then cost + 1 else cost

/-- How many levels of operands within operands the text of an expression nests. -/
def cost : Expr → Nat
  | number _ | pi | identifier _ => 0
  | neg operand => encloseCost (parenthesesNeg operand) operand.cost
  | binary operator left right =>
    max (encloseCost (parenthesesLeft operator left) left.cost)
      (encloseCost (parenthesesRight operator right) right.cost + 1)
  | call _ argument => argument.cost + 1

theorem encloseCost_le (needed : Bool) (cost : Nat) : encloseCost needed cost ≤ cost + 1 := by
  cases needed <;> simp [encloseCost]

/-- Every level of a tree nests at most twice: once for the operand, and once for the
parentheses around it. -/
theorem cost_lt (e : Expr) : e.cost + 2 ≤ 2 * e.height := by
  induction e with
  | number value => simp [cost, height]
  | pi => simp [cost, height]
  | identifier name => simp [cost, height]
  | neg operand ih =>
      have hEnclosed := encloseCost_le (parenthesesNeg operand) operand.cost
      simp only [cost, height]
      omega
  | binary operator left right ihLeft ihRight =>
      have hLeft := encloseCost_le (parenthesesLeft operator left) left.cost
      have hRight := encloseCost_le (parenthesesRight operator right) right.cost
      simp only [cost, height]
      omega
  | call function argument ih =>
      simp only [cost, height]
      omega

/-! ### Scanning the text of an expression -/

theorem shows_enclose {text : String} {marks : List Mark} (h : Shows text marks) (needed : Bool) :
    Shows (enclose needed text) (encloseMarks needed marks) := by
  intro rest hRest
  cases needed with
  | false => exact h rest hRest
  | true =>
      have hInner := h (')' :: rest) (.cons (by decide) rest)
      have hText : (enclose true text).toList ++ rest =
          '(' :: (text.toList ++ ')' :: rest) := by simp [enclose]
      rw [hText, scan_leftParen, hInner, scan_rightParen, Option.map_map, Option.map_map]
      simp [encloseMarks, signMark, Symbol.text, Function.comp_def]

/-- An operator with its blanks never runs into its operands. -/
theorem scan_operator (operator : Operator) (rest : List Char) :
    scan ((" " ++ operator.sign ++ " ").toList ++ rest) =
      (scan rest).map fun marks => signMark operator.symbol :: marks := by
  have hApart : operator.symbol.StandsApart (' ' :: rest) := by
    cases operator <;> simp [Operator.symbol, Symbol.StandsApart]
  have hText : (" " ++ operator.sign ++ " ").toList ++ rest =
      ' ' :: (operator.symbol.text.toList ++ ' ' :: rest) := by
    simp [Operator.text_symbol]
  rw [hText, scan_space, scan_symbol _ hApart, scan_space]
  rfl

theorem name_head (function : MathFunction) :
    ∃ c more, function.name.toList = c :: more ∧ c.isAlphanum = true := by
  cases function <;> exact ⟨_, _, rfl, rfl⟩

/-- The operand of a negation begins with a parenthesis, a letter or a digit. -/
theorem enclose_neg_head {operand : Expr} (h : operand.Legible) :
    ∃ c more, (enclose (parenthesesNeg operand) operand.text).toList = c :: more ∧
      (c = '(' ∨ c.isAlphanum = true) := by
  cases hNeeded : parenthesesNeg operand with
  | true => exact ⟨'(', (operand.text ++ ")").toList, by simp [enclose], Or.inl rfl⟩
  | false =>
      simp only [enclose, Bool.false_eq_true, if_false]
      cases operand with
      | number value =>
          obtain ⟨hFinite, hSign⟩ := h
          obtain ⟨hNonempty, hDigits, -⟩ := literalLayout_wellFormed value
          obtain ⟨c, more, hWhole⟩ := List.exists_cons_of_ne_nil hNonempty
          have hDigit : c.isDigit = true := hDigits c (by simp [hWhole])
          rw [text, toList_literalText hFinite hSign, NumberLayout.text, hWhole, List.cons_append]
          exact ⟨c, _, rfl, Or.inr (by simp [Char.isAlphanum, hDigit])⟩
      | pi => exact ⟨'p', ['i'], rfl, Or.inr rfl⟩
      | identifier name =>
          obtain ⟨c, more, hName, hAlpha⟩ := IsWord.head (IsName.word h)
          exact ⟨c, more, hName, Or.inr (by simp [Char.isAlphanum, hAlpha])⟩
      | call function argument =>
          obtain ⟨c, more, hName, hHead⟩ := name_head function
          exact ⟨c, more ++ ("(" ++ argument.text ++ ")").toList, by simp [text, hName],
            Or.inr hHead⟩
      | neg operand => simp [parenthesesNeg, strength, negationStrength, atomStrength] at hNeeded
      | binary operator left right =>
          cases operator <;>
            simp [parenthesesNeg, strength, Operator.precedence, atomStrength] at hNeeded

/-- **Scanning.**  The text of an expression is scanned into its marks. -/
theorem text_shows {e : Expr} (h : e.Legible) : Shows e.text e.marks := by
  induction e with
  | number value =>
      intro rest hRest
      rw [text, scan_literal h.1 h.2 hRest]
      rfl
  | pi =>
      intro rest hRest
      exact scan_keyword .pi hRest
  | identifier name => exact shows_name h
  | neg operand ih =>
      intro rest hRest
      obtain ⟨c, more, hHead, hFirst⟩ := @enclose_neg_head operand h
      have hApart : Symbol.minus.StandsApart
          ((enclose (parenthesesNeg operand) operand.text).toList ++ rest) := by
        rw [hHead, List.cons_append, Symbol.StandsApart, List.head?_cons]
        rintro ⟨⟩
        revert hFirst
        decide
      have hText : (neg operand).text.toList ++ rest = Symbol.minus.text.toList ++
          ((enclose (parenthesesNeg operand) operand.text).toList ++ rest) := by
        simp [text, Symbol.text]
      rw [hText, scan_symbol .minus hApart, shows_enclose (ih h) _ rest hRest, Option.map_map]
      rfl
  | binary operator left right ihLeft ihRight =>
      intro rest hRest
      have hText : (binary operator left right).text.toList ++ rest =
          (enclose (parenthesesLeft operator left) left.text).toList ++
            ((" " ++ operator.sign ++ " ").toList ++
              ((enclose (parenthesesRight operator right) right.text).toList ++ rest)) := by
        simp [text]
      have hDelimited : Delimited ((" " ++ operator.sign ++ " ").toList ++
          ((enclose (parenthesesRight operator right) right.text).toList ++ rest)) := by
        simp only [String.toList_append, List.append_assoc]
        exact .cons (by decide) _
      rw [hText, shows_enclose (ihLeft h.1) _ _ hDelimited, scan_operator,
        shows_enclose (ihRight h.2) _ rest hRest, Option.map_map, Option.map_map]
      simp [marks, Function.comp_def]
  | call function argument ih =>
      intro rest hRest
      have hText : (call function argument).text.toList ++ rest =
          function.name.toList ++ '(' :: (argument.text.toList ++ ')' :: rest) := by
        simp [text]
      rw [hText, scan_function function (.cons (by decide) _), scan_leftParen,
        ih h (')' :: rest) (.cons (by decide) rest), scan_rightParen, Option.map_map,
        Option.map_map, Option.map_map]
      simp [marks, signMark, Symbol.text, Function.comp_def]

/-! ### Deriving the text of an expression -/

/-- The leaf that a printed number is read as. -/
theorem opening?_literalToken {x : Binary64} (hFinite : x.isFinite = true)
    (hSign : x.isNegative = false) :
    opening? (literalToken x) = some (.leaf (.number x)) := by
  unfold literalToken
  split
  · rename_i hPattern
    obtain ⟨-, -, hExponent, hBound⟩ := literalLayout_integer hFinite hPattern
    have hDecimal : (⟨(UInt64.ofNat (literalLayout x).decimal.coefficient).toNat, 0⟩ : Decimal) =
        (literalLayout x).decimal := by
      rw [UInt64.toNat_ofNat', Nat.mod_eq_of_lt hBound, ← hExponent]
    rw [opening?, hDecimal, toBinary64_literalLayout hFinite hSign]
  · rfl

/-- Lexemes in parentheses are a primary phrase; without them they keep their level. -/
theorem derives_enclosed {needed : Bool} {level : Nat} {e : Expr} {lexemes : List Lexeme}
    (h : ∀ inner : List Lexeme, inner.map Lexeme.mark = e.marks →
      Derives e.strength inner e e.cost)
    (hLevel : level ≤ 5) (hStrength : needed = false → level ≤ e.strength)
    (hMarks : lexemes.map Lexeme.mark = encloseMarks needed e.marks) :
    Derives level lexemes e (encloseCost needed e.cost) := by
  cases needed with
  | false => exact (h lexemes hMarks).loosen (hStrength rfl)
  | true =>
      obtain ⟨opening, others, rfl, hOpening, hOthers⟩ := List.map_eq_cons_iff.mp hMarks
      obtain ⟨inner, last, rfl, hInner, hLast⟩ := List.map_eq_append_iff.mp hOthers
      obtain ⟨closing, rfl, hClosing⟩ := List.map_eq_singleton_iff.mp hLast
      have hPrimary := Derives.parenthesis (token_of_mark hOpening)
        ((h inner hInner).loosen (Nat.zero_le _)) (token_of_mark hClosing)
      exact hPrimary.loosen hLevel

theorem left_level {operator : Operator} {left : Expr}
    (h : parenthesesLeft operator left = false) : leftPrecedence operator ≤ left.strength := by
  unfold parenthesesLeft at h
  unfold leftPrecedence
  split at h
  · have hStrength := of_decide_eq_false h
    rw [if_pos (by assumption)]
    omega
  · have hStrength := of_decide_eq_false h
    rw [if_neg (by assumption)]
    omega

theorem right_level {operator : Operator} {right : Expr}
    (h : parenthesesRight operator right = false) : rightPrecedence operator ≤ right.strength := by
  unfold parenthesesRight at h
  unfold rightPrecedence
  split at h
  · have hStrength := of_decide_eq_false h
    rw [if_pos (by assumption)]
    omega
  · have hStrength := of_decide_eq_false h
    rw [if_neg (by assumption)]
    omega

/-- **Deriving.**  Lexemes with the marks of an expression are derived as the expression, on the
level of its outermost part and with the nesting of its text. -/
theorem derives_of_marks {e : Expr} (h : e.Legible) {lexemes : List Lexeme}
    (hMarks : lexemes.map Lexeme.mark = e.marks) : Derives e.strength lexemes e e.cost := by
  induction e generalizing lexemes with
  | number value =>
      obtain ⟨lexeme, rfl, hMark⟩ := List.map_eq_singleton_iff.mp hMarks
      have hStrength : (number value).strength = 5 := by simp [strength, h.2, atomStrength]
      rw [hStrength]
      exact .leaf (by rw [token_of_mark hMark, opening?_literalToken h.1 h.2])
  | pi =>
      obtain ⟨lexeme, rfl, hMark⟩ := List.map_eq_singleton_iff.mp hMarks
      exact .leaf (by rw [token_of_mark hMark]; rfl)
  | identifier name =>
      obtain ⟨lexeme, rfl, hMark⟩ := List.map_eq_singleton_iff.mp hMarks
      exact .leaf (by rw [token_of_mark hMark]; rfl)
  | neg operand ih =>
      obtain ⟨sign, others, rfl, hSign, hOthers⟩ := List.map_eq_cons_iff.mp hMarks
      refine .minus (token_of_mark hSign) (derives_enclosed (fun _ => ih h) (by omega) ?_ hOthers)
      intro hNeeded
      have hStrength : ¬ operand.strength < 5 := of_decide_eq_false hNeeded
      omega
  | binary operator left right ihLeft ihRight =>
      obtain ⟨first, others, rfl, hFirst, hOthers⟩ := List.map_eq_append_iff.mp hMarks
      obtain ⟨sign, second, rfl, hSign, hSecond⟩ := List.map_eq_cons_iff.mp hOthers
      have hLeftBound : leftPrecedence operator ≤ 5 := by cases operator <;> decide
      have hRightBound : rightPrecedence operator ≤ 5 := by cases operator <;> decide
      exact .binary (token_of_mark hSign) operator.operator?_symbol
        (derives_enclosed (fun _ => ihLeft h.1) hLeftBound left_level hFirst)
        (derives_enclosed (fun _ => ihRight h.2) hRightBound right_level hSecond)
  | call function argument ih =>
      obtain ⟨name, others, rfl, hName, hOthers⟩ := List.map_eq_cons_iff.mp hMarks
      obtain ⟨opening, behind, rfl, hOpening, hBehind⟩ := List.map_eq_cons_iff.mp hOthers
      obtain ⟨inner, last, rfl, hInner, hLast⟩ := List.map_eq_append_iff.mp hBehind
      obtain ⟨closing, rfl, hClosing⟩ := List.map_eq_singleton_iff.mp hLast
      exact .call (token_of_mark hName) (token_of_mark hOpening)
        ((ih h hInner).loosen (Nat.zero_le _)) (token_of_mark hClosing)

end Expr
end QuantumCircuit
