import QuantumCircuit.Proofs.Grammar.Legible
import QuantumCircuit.Proofs.Printing.Signs

/-!
# The parentheses of a printed expression

A parenthesis that is not part of the application of a function groups.  How many of them a phrase
needs is decided by its tree: one wherever an operand binds less tightly than its place asks for.
The printer writes these, and one more wherever it negates a negation, where none is needed.

* `Derives.needs` : no phrase of a tree has fewer grouping parentheses than the tree needs, or
  nests less.
* `hasPhrase_fewest` : some phrase of a tree has no more.
* `Expr.groupings_marks` : how many the text of a tree has.
* `Expr.text_groupings` : by how much that exceeds the fewest.
-/

namespace QuantumCircuit

open Grammar

/-! ### Grouping parentheses -/

/-- The parentheses that open other than behind the name of a function. -/
def countGroupings (behindFunction : Bool) : List Token → Nat
  | [] => 0
  | .function _ :: rest => countGroupings true rest
  | .symbol .leftParen :: rest => (if behindFunction then 0 else 1) + countGroupings false rest
  | _ :: rest => countGroupings false rest

/-- The grouping parentheses of some tokens. -/
def groupings (tokens : List Token) : Nat := countGroupings false tokens

theorem groupings_leftParen (rest : List Token) :
    groupings (.symbol .leftParen :: rest) = groupings rest + 1 := by
  rw [groupings, countGroupings, if_neg Bool.false_ne_true, Nat.add_comm]
  rfl

theorem groupings_nil : groupings [] = 0 := rfl

theorem groupings_rightParen (rest : List Token) :
    groupings (.symbol .rightParen :: rest) = groupings rest := rfl

theorem groupings_minus (rest : List Token) :
    groupings (.symbol .minus :: rest) = groupings rest := rfl

/-- The parenthesis of an application does not group. -/
theorem groupings_function (f : MathFunction) (rest : List Token) :
    groupings (.function f :: .symbol .leftParen :: rest) = groupings rest := by
  rw [groupings, countGroupings, countGroupings, if_pos rfl, Nat.zero_add]
  rfl

theorem groupings_operator {sign : Symbol} {operator : Operator}
    (h : operator? sign = some operator) (rest : List Token) :
    groupings (.symbol sign :: rest) = groupings rest := by
  cases sign <;> first | rfl | cases h

theorem groupings_leaf {token : Token} {e : Expr} (h : opening? token = some (.leaf e))
    (rest : List Token) : groupings (token :: rest) = groupings rest := by
  cases token with
  | symbol sign => cases sign <;> first | rfl | cases h
  | function f => cases h
  | _ => rfl

/-! ### What a tree needs -/

namespace Expr

/-- The fewest grouping parentheses of a phrase of the tree. -/
def fewest : Expr → Nat
  | number _ | pi | identifier _ => 0
  | neg operand => encloseCost (operand.strength < negationStrength) operand.fewest
  | binary operator left right =>
    encloseCost (parenthesesLeft operator left) left.fewest +
      encloseCost (parenthesesRight operator right) right.fewest
  | call _ argument => argument.fewest

/-- The least nesting of a phrase of the tree. -/
def leastCost : Expr → Nat
  | number _ | pi | identifier _ => 0
  | neg operand => encloseCost (operand.strength < negationStrength) operand.leastCost
  | binary operator left right =>
    max (encloseCost (parenthesesLeft operator left) left.leastCost)
      (encloseCost (parenthesesRight operator right) right.leastCost + 1)
  | call _ argument => argument.leastCost + 1

theorem parenthesesLeft_eq (operator : Operator) (left : Expr) :
    parenthesesLeft operator left = decide (left.strength < leftPrecedence operator) := by
  unfold parenthesesLeft leftPrecedence
  split
  · simp only [Nat.lt_succ_iff]
  · rfl

theorem parenthesesRight_eq (operator : Operator) (right : Expr) :
    parenthesesRight operator right = decide (right.strength < rightPrecedence operator) := by
  unfold parenthesesRight rightPrecedence
  split
  · rfl
  · simp only [Nat.lt_succ_iff]

theorem encloseCost_mono {needed other : Bool} (h : needed = true → other = true) (cost : Nat) :
    encloseCost needed cost ≤ encloseCost other cost := by
  cases needed <;> cases other <;> simp_all [encloseCost]

/-- Where everything is tight enough, there are no parentheses. -/
theorem encloseCost_of_le {level strength : Nat} (h : level ≤ strength) (cost : Nat) :
    encloseCost (strength < level) cost = cost := by
  simp [encloseCost, Nat.not_lt.mpr h]

/-- A legible leaf binds most tightly. -/
theorem strength_leaf {token : Token} {e : Expr} (h : opening? token = some (.leaf e))
    (hLegible : e.Legible) : e.strength = 5 ∧ e.fewest = 0 ∧ e.leastCost = 0 := by
  cases e with
  | number value => exact ⟨by simp [strength, hLegible.2, atomStrength], rfl, rfl⟩
  | pi => exact ⟨rfl, rfl, rfl⟩
  | identifier name => exact ⟨rfl, rfl, rfl⟩
  | _ =>
      unfold opening? at h
      split at h <;> cases h

end Expr

namespace Grammar

variable {level cost : Nat} {lexemes : List Lexeme} {e : Expr}

/-- Behind a phrase, parentheses count as on their own. -/
theorem Derives.groupings_append (h : Derives level lexemes e cost) (rest : List Token) :
    groupings (lexemes.map Lexeme.token ++ rest) =
      groupings (lexemes.map Lexeme.token) + groupings rest := by
  -- false of tokens in general: the name of a function changes what a parenthesis behind it does,
  -- but no phrase ends with such a name
  induction h generalizing rest with
  | leaf hLeaf =>
      simp only [List.map_cons, List.map_nil, List.cons_append, List.nil_append,
        groupings_leaf hLeaf, groupings_nil, Nat.zero_add]
  | parenthesis hOpening hInner hClosing ih =>
      simp only [List.map_cons, List.map_append, List.map_nil, List.cons_append, List.append_assoc,
        List.nil_append, hOpening, hClosing, groupings_leftParen, ih, groupings_rightParen,
        groupings_nil]
      omega
  | call hName hOpening hInner hClosing ih =>
      simp only [List.map_cons, List.map_append, List.map_nil, List.cons_append, List.append_assoc,
        List.nil_append, hName, hOpening, hClosing, groupings_function, ih, groupings_rightParen,
        groupings_nil]
      omega
  | minus hSign hOperand ih =>
      simp only [List.map_cons, List.cons_append, hSign, groupings_minus, ih]
  | binary hSign hOperator hLeft hRight ihLeft ihRight =>
      simp only [List.map_cons, List.map_append, List.cons_append, List.append_assoc, hSign, ihLeft,
        ihRight, groupings_operator hOperator]
      omega
  | tighter hTighter ih => exact ih rest

/-- **Lower bound.**  Every phrase of a legible tree has the parentheses and the nesting that the
tree needs, and one more if it stands where the tree does not bind tightly enough. -/
theorem Derives.needs (h : Derives level lexemes e cost) (hLegible : e.Legible) :
    Expr.encloseCost (e.strength < level) e.fewest ≤ groupings (lexemes.map Lexeme.token) ∧
      Expr.encloseCost (e.strength < level) e.leastCost ≤ cost := by
  -- by induction on the phrase: only a parenthesis gets down to a tree that is too loose for its
  -- level, and it pays for that
  induction h with
  | leaf hLeaf =>
      obtain ⟨hStrength, hFewest, hLeast⟩ := Expr.strength_leaf hLeaf hLegible
      rw [hStrength, hFewest, hLeast]
      exact ⟨Nat.zero_le _, Nat.zero_le _⟩
  | @parenthesis opening closing inner e cost hOpening hInner hClosing ih =>
      obtain ⟨hFewest, hLeast⟩ := ih hLegible
      rw [Expr.encloseCost_of_le (Nat.zero_le _)] at hFewest hLeast
      have hMost := fun n => Expr.encloseCost_le (e.strength < 5) n
      simp only [List.map_cons, List.map_append, List.map_nil, hOpening, hClosing,
        groupings_leftParen, hInner.groupings_append, groupings_rightParen, groupings_nil]
      exact ⟨Nat.le_trans (hMost _) (by omega), Nat.le_trans (hMost _) (by omega)⟩
  | @call name opening closing f inner e cost hName hOpening hInner hClosing ih =>
      obtain ⟨hFewest, hLeast⟩ := ih hLegible
      rw [Expr.encloseCost_of_le (Nat.zero_le _)] at hFewest hLeast
      simp only [List.map_cons, List.map_append, List.map_nil, hName, hOpening, hClosing,
        groupings_function, hInner.groupings_append, groupings_rightParen, groupings_nil]
      have hNone := fun n =>
        Expr.encloseCost_of_le (show 5 ≤ (Expr.call f e).strength from Nat.le_refl 5) n
      rw [hNone, hNone]
      exact ⟨hFewest, Nat.succ_le_succ hLeast⟩
  | @minus sign lexemes operand cost hSign hOperand ih =>
      simp only [List.map_cons, hSign, groupings_minus]
      have hNone := fun n =>
        Expr.encloseCost_of_le (show 4 ≤ (Expr.neg operand).strength from Nat.le_refl 4) n
      rw [hNone, hNone]
      exact ih hLegible
  | @binary sign symbol operator first second left right leftCost rightCost hSign hOperator hLeft
      hRight ihLeft ihRight =>
      obtain ⟨hLeftFewest, hLeftLeast⟩ := ihLeft hLegible.1
      obtain ⟨hRightFewest, hRightLeast⟩ := ihRight hLegible.2
      rw [← Expr.parenthesesLeft_eq] at hLeftFewest hLeftLeast
      rw [← Expr.parenthesesRight_eq] at hRightFewest hRightLeast
      simp only [List.map_append, List.map_cons, hSign, hLeft.groupings_append,
        groupings_operator hOperator]
      have hNone := fun n => Expr.encloseCost_of_le
        (show operator.precedence ≤ (Expr.binary operator left right).strength from
          Nat.le_refl _) n
      rw [hNone, hNone]
      exact ⟨Nat.add_le_add hLeftFewest hRightFewest,
        max_le_max hLeftLeast (Nat.succ_le_succ hRightLeast)⟩
  | @tighter level lexemes e cost hTighter ih =>
      -- a tree that is tight enough for the next level is so for this one
      obtain ⟨hFewest, hLeast⟩ := ih hLegible
      have hLooser : decide (e.strength < level) = true →
          decide (e.strength < level + 1) = true := by
        simp only [decide_eq_true_eq]
        omega
      have hMono := fun n => Expr.encloseCost_mono hLooser n
      exact ⟨Nat.le_trans (hMono _) hFewest, Nat.le_trans (hMono _) hLeast⟩

/-! ### A phrase with no more than that -/

/-- Some phrase of the tree has so many grouping parentheses, and nests so much. -/
def HasPhrase (level : Nat) (e : Expr) (parentheses cost : Nat) : Prop :=
  ∃ lexemes, Derives level lexemes e cost ∧ groupings (lexemes.map Lexeme.token) = parentheses

/-- A phrase stands at every level, in parentheses where its tree does not bind tightly enough. -/
theorem HasPhrase.enclosed {parentheses : Nat} (h : HasPhrase e.strength e parentheses cost)
    (hLevel : level ≤ 5) :
    HasPhrase level e (Expr.encloseCost (e.strength < level) parentheses)
      (Expr.encloseCost (e.strength < level) cost) := by
  obtain ⟨lexemes, hDerives, hCount⟩ := h
  rcases Nat.lt_or_ge e.strength level with hLoose | hTight
  · have hNeeded : ∀ n, Expr.encloseCost (e.strength < level) n = n + 1 := fun n => by
      simp [Expr.encloseCost, hLoose]
    have hEnclosed : Derives 5 (Token.lexeme (.symbol .leftParen) ::
        (lexemes ++ [Token.lexeme (.symbol .rightParen)])) e (cost + 1) :=
      .parenthesis rfl (hDerives.loosen (Nat.zero_le _)) rfl
    rw [hNeeded, hNeeded]
    refine ⟨_, hEnclosed.loosen hLevel, ?_⟩
    simp only [List.map_cons, List.map_append, List.map_nil, Token.lexeme, groupings_leftParen,
      hDerives.groupings_append, groupings_rightParen, groupings_nil, hCount, Nat.add_zero]
  · rw [Expr.encloseCost_of_le hTight, Expr.encloseCost_of_le hTight]
    exact ⟨lexemes, hDerives.loosen hTight, hCount⟩

theorem hasPhrase_leaf (token : Token) (h : opening? token = some (.leaf e))
    (hLegible : e.Legible) : HasPhrase e.strength e e.fewest e.leastCost := by
  obtain ⟨hStrength, hFewest, hLeast⟩ := Expr.strength_leaf h hLegible
  rw [hStrength, hFewest, hLeast]
  exact ⟨[Token.lexeme token], .leaf h, groupings_leaf h []⟩

/-- **Attainment.**  Some phrase of a legible tree has no more parentheses and no more nesting than
the tree needs. -/
theorem hasPhrase_fewest (h : e.Legible) : HasPhrase e.strength e e.fewest e.leastCost := by
  induction e with
  | number value => exact hasPhrase_leaf (.real value) rfl h
  | pi => exact hasPhrase_leaf (.keyword .pi) rfl h
  | identifier name => exact hasPhrase_leaf (.identifier name) rfl h
  | neg operand ih =>
      obtain ⟨lexemes, hDerives, hCount⟩ := (ih h).enclosed (show 4 ≤ 5 by omega)
      exact ⟨Token.lexeme (.symbol .minus) :: lexemes, .minus rfl hDerives, hCount⟩
  | binary operator left right ihLeft ihRight =>
      have hLeftBound : leftPrecedence operator ≤ 5 := by cases operator <;> decide
      have hRightBound : rightPrecedence operator ≤ 5 := by cases operator <;> decide
      obtain ⟨first, hLeft, hFirst⟩ := (ihLeft h.1).enclosed hLeftBound
      obtain ⟨second, hRight, hSecond⟩ := (ihRight h.2).enclosed hRightBound
      rw [← Expr.parenthesesLeft_eq] at hLeft hFirst
      rw [← Expr.parenthesesRight_eq] at hRight hSecond
      refine ⟨first ++ Token.lexeme (.symbol operator.symbol) :: second,
        .binary rfl operator.operator?_symbol hLeft hRight, ?_⟩
      rw [List.map_append, List.map_cons, hLeft.groupings_append, Token.lexeme,
        groupings_operator operator.operator?_symbol, hFirst, hSecond]
      rfl
  | call f argument ih =>
      obtain ⟨inner, hDerives, hCount⟩ := (ih h).enclosed (Nat.zero_le 5)
      rw [Expr.encloseCost_of_le (Nat.zero_le _)] at hDerives hCount
      refine ⟨Token.lexeme (.function f) :: Token.lexeme (.symbol .leftParen) ::
        (inner ++ [Token.lexeme (.symbol .rightParen)]), .call rfl rfl hDerives rfl, ?_⟩
      simp only [List.map_cons, List.map_append, List.map_nil, Token.lexeme, groupings_function,
        hDerives.groupings_append, groupings_rightParen, groupings_nil]
      exact hCount

end Grammar

/-! ### The text of an expression -/

namespace Expr

/-- Is the expression a negation? -/
def isNegation : Expr → Bool
  | neg _ => true
  | _ => false

/-- The negations of a negation. -/
def doubledNegations : Expr → Nat
  | number _ | pi | identifier _ => 0
  | neg operand => operand.doubledNegations + if operand.isNegation then 1 else 0
  | binary _ left right => left.doubledNegations + right.doubledNegations
  | call _ argument => argument.doubledNegations

theorem encloseCost_add (needed : Bool) (cost more : Nat) :
    encloseCost needed (cost + more) = encloseCost needed cost + more := by
  cases needed <;> simp [encloseCost]
  omega

/-- The printer encloses what a negation needs enclosed, and negations. -/
theorem encloseCost_neg {operand : Expr} (h : operand.Legible) (count : Nat) :
    encloseCost (parenthesesNeg operand) count =
      encloseCost (operand.strength < negationStrength) count +
        if operand.isNegation then 1 else 0 := by
  cases operand with
  | number value =>
      have hStrength : (number value).strength = 5 := by simp [strength, h.2, atomStrength]
      rw [parenthesesNeg, hStrength]
      rfl
  | binary operator left right =>
      have hBelow := precedence_lt_four operator
      show encloseCost (operator.precedence < 5) count = encloseCost (operator.precedence < 4) count
      rw [decide_eq_true hBelow, decide_eq_true (Nat.lt_succ_of_lt hBelow)]
  | _ => rfl

/-- The marks of operands that may stand in parentheses. -/
theorem groupings_enclose {marks : List Mark} {count : Nat} (needed : Bool)
    (h : ∀ rest, groupings (marks.map Mark.token ++ rest) = count + groupings rest)
    (rest : List Token) :
    groupings ((encloseMarks needed marks).map Mark.token ++ rest) =
      encloseCost needed count + groupings rest := by
  cases needed with
  | false => exact h rest
  | true =>
      simp only [encloseMarks, encloseCost, if_pos, List.map_cons, List.map_append, List.map_nil,
        List.cons_append, List.append_assoc, List.nil_append, signMark, groupings_leftParen, h,
        groupings_rightParen]
      omega

/-- The text of a legible expression has the fewest parentheses, and one more for every negation
of a negation. -/
theorem groupings_marks {e : Expr} (h : e.Legible) (rest : List Token) :
    groupings (e.marks.map Mark.token ++ rest) =
      e.fewest + e.doubledNegations + groupings rest := by
  induction e generalizing rest with
  | number value =>
      have hLeaf := groupings_leaf (opening?_literalToken h.1 h.2) rest
      simp only [marks, List.map_cons, List.map_nil, List.cons_append, List.nil_append, hLeaf,
        fewest, doubledNegations, Nat.zero_add]
  | pi => exact (Nat.zero_add _).symm
  | identifier name => exact (Nat.zero_add _).symm
  | neg operand ih =>
      have hOperand : operand.Legible := h
      simp only [marks, List.map_cons, List.cons_append, signMark, groupings_minus,
        groupings_enclose _ (ih hOperand), encloseCost_add, encloseCost_neg hOperand, fewest,
        doubledNegations]
      omega
  | binary operator left right ihLeft ihRight =>
      simp only [marks, List.map_append, List.map_cons, List.append_assoc, List.cons_append,
        signMark, groupings_operator operator.operator?_symbol, groupings_enclose _ (ihLeft h.1),
        groupings_enclose _ (ihRight h.2), encloseCost_add, fewest, doubledNegations]
      omega
  | call f argument ih =>
      have hArgument : argument.Legible := h
      simp only [marks, List.map_append, List.map_cons, List.map_nil, List.append_assoc,
        List.cons_append, List.nil_append, signMark, groupings_function, ih hArgument,
        groupings_rightParen, fewest, doubledNegations]

/-- An expression that is read from a text is legible, and is read from lexemes. -/
theorem legible_of_parse {source : String} {e : Expr} (h : Expr.parse source = .ok e) :
    e.Legible ∧ ∃ lexemes, IsExpression lexemes e := by
  cases hEmpty : source.isEmpty with
  | true =>
      rw [Expr.parse, hEmpty] at h
      cases h
  | false =>
      cases hLexemes : tokenize source with
      | error error =>
          rw [Expr.parse, hEmpty, lexemesOf, hLexemes] at h
          cases h
      | ok lexemes =>
          rw [parse_of_tokenize hEmpty hLexemes] at h
          cases hRead : Expr.ofLexemes lexemes with
          | error error =>
              rw [hRead] at h
              cases h
          | ok found =>
              rw [hRead] at h
              cases h
              have hExpression := Expr.ofLexemes_eq_ok.mp hRead
              exact ⟨hExpression.legible (proper_of_tokenize hLexemes), _, hExpression⟩

/-- **Parentheses.**  The text of an expression that is read from a text has one grouping
parenthesis more than needed for every negation of a negation, and no others: what is read as the
expression has no fewer, and some lexemes have no more. -/
theorem text_groupings {source : String} {e : Expr} (h : Expr.parse source = .ok e) :
    ∃ shown, tokenize e.text = .ok shown ∧
      (∀ lexemes, Expr.ofLexemes lexemes = .ok e →
        groupings (shown.map Lexeme.token) ≤
          groupings ((properLexemes lexemes).map Lexeme.token) + e.doubledNegations) ∧
      ∃ lexemes, Expr.ofLexemes lexemes = .ok e ∧
        groupings (shown.map Lexeme.token) =
          groupings ((properLexemes lexemes).map Lexeme.token) + e.doubledNegations := by
  obtain ⟨hLegible, origin, hOrigin⟩ := legible_of_parse h
  obtain ⟨shown, hShown, hMarks⟩ := tokenize_of_scan (scan_text hLegible)
  have hCount : groupings (shown.map Lexeme.token) = e.fewest + e.doubledNegations := by
    have hTokens : shown.map Lexeme.token = (shown.map Lexeme.mark).map Mark.token := by
      rw [List.map_map]
      rfl
    rw [hTokens, hMarks, List.map_append, groupings_marks hLegible]
    rfl
  refine ⟨shown, hShown, fun lexemes hRead => ?_, ?_⟩
  · obtain ⟨cost, hDerives, -⟩ := Expr.ofLexemes_eq_ok.mp hRead
    have hNeeds := (hDerives.needs hLegible).1
    rw [encloseCost_of_le (Nat.zero_le _)] at hNeeds
    omega
  · -- the sparsest phrase nests no more than the one that was read, so it is read, too
    obtain ⟨cost, hDerives, hCost, hHeight⟩ := hOrigin
    have hLeast := (hDerives.needs hLegible).2
    rw [encloseCost_of_le (Nat.zero_le _)] at hLeast
    obtain ⟨lexemes, hSparse, hFewest⟩ := hasPhrase_fewest hLegible
    have hProper : properLexemes lexemes = lexemes := by
      refine properLexemes_of_forall fun lexeme hMember hEnd => ?_
      have hToken := hSparse.tokens lexeme hMember
      rw [hEnd] at hToken
      cases hToken
    refine ⟨lexemes, Expr.ofLexemes_eq_ok.mpr ⟨e.leastCost, ?_, by omega, hHeight⟩, ?_⟩
    · rw [hProper]
      exact hSparse.loosen (Nat.zero_le _)
    · rw [hProper, hCount, hFewest]

/-- The tree of `--a`. -/
def negatedTwice : Expr := .neg (.neg (.identifier "a"))

theorem text_groupings_negatedTwice :
    Expr.parse "-(-a)" = .ok negatedTwice ∧ ∃ shown lexemes,
      tokenize negatedTwice.text = .ok shown ∧ Expr.ofLexemes lexemes = .ok negatedTwice ∧
        groupings (shown.map Lexeme.token) =
          groupings ((properLexemes lexemes).map Lexeme.token) + 1 := by
  have hRead : Expr.parse "-(-a)" = .ok negatedTwice :=
    read_text (e := negatedTwice) (by decide) ⟨by decide, by decide⟩
  obtain ⟨shown, hShown, -, lexemes, hLexemes, hCount⟩ := text_groupings hRead
  exact ⟨hRead, shown, lexemes, hShown, hLexemes, hCount⟩

/-- The text of `--a` has a parenthesis that `--a` does without. -/
theorem parse_doubleMinus :
    Expr.parse "--a" = .ok negatedTwice ∧
      ¬ ∀ shown lexemes, tokenize negatedTwice.text = .ok shown →
        Expr.ofLexemes lexemes = .ok negatedTwice →
          groupings (shown.map Lexeme.token) ≤
            groupings ((properLexemes lexemes).map Lexeme.token) := by
  have hShown : (tokenize negatedTwice.text).toOption.map
      (fun lexemes => groupings (lexemes.map Lexeme.token)) = some 1 := by decide +kernel
  have hLexemes : Expr.ofLexemes [Token.lexeme (.symbol .minus), Token.lexeme (.symbol .minus),
      Token.lexeme (.identifier "a")] = .ok negatedTwice := by
    have hName : Derives 4 [Token.lexeme (.identifier "a")] (.identifier "a") 0 :=
      (Derives.leaf rfl).loosen (by decide)
    have hDerives : Derives 4 [Token.lexeme (.symbol .minus), Token.lexeme (.symbol .minus),
        Token.lexeme (.identifier "a")] negatedTwice 0 :=
      .minus rfl (.minus rfl hName)
    exact Expr.ofLexemes_eq_ok.mpr ⟨0, hDerives.loosen (Nat.zero_le 4), by decide, by decide⟩
  refine ⟨by decide +kernel, fun hLeast => ?_⟩
  cases hResult : tokenize negatedTwice.text with
  | error error =>
      rw [hResult] at hShown
      cases hShown
  | ok shown =>
      rw [hResult] at hShown
      have hOne : groupings (shown.map Lexeme.token) = 1 := Option.some.inj hShown
      have hFewer := hLeast shown _ hResult hLexemes
      rw [hOne] at hFewer
      exact absurd hFewer (by decide)

end Expr

end QuantumCircuit
