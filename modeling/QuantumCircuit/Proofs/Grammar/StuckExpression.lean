import QuantumCircuit.Proofs.Grammar.Stuck

/-!
# Where expressions get stuck

An expression goes on with every operator that binds tightly enough, so what is asked for behind
it is not all that could stand there.  Inside of an expression nothing else is omitted, except the
parenthesis that closes an empty list of parameters.

* `Derives.goesOn` : a phrase of a level goes on with every operator of the level.
* `Operand` : the spots in front of an operand.
* `expression_tells` : expressions are finished, or stuck, as the omissions say.
-/

namespace QuantumCircuit
namespace Grammar

/-! ### Operators -/

/-- No operator comes next that binds tightly enough. -/
theorem avoids_operatorSigns {lowest : Nat} {lexemes : List Lexeme} :
    Avoids (operatorSigns lowest) lexemes ↔ Stops lowest lexemes := by
  constructor
  · intro h operator rest hFront
    obtain ⟨sign, symbol, rfl, hSign, hOperator⟩ := frontOperator?_eq_some hFront
    by_contra hTight
    exact h sign rfl symbol (mem_operatorSigns.mpr ⟨operator, hOperator, Nat.le_of_not_lt hTight⟩)
      hSign
  · intro h lexeme hLexeme symbol hMember hSign
    obtain ⟨rest, rfl⟩ := List.head?_eq_some_iff.mp (Option.mem_def.mp hLexeme)
    obtain ⟨operator, hOperator, hTight⟩ := mem_operatorSigns.mp hMember
    exact Nat.not_lt_of_le hTight (h operator rest (frontOperator?_cons hSign hOperator rest))

/-- A phrase goes on with an operator of its level and an operand. -/
theorem Derives.goesOn {level cost : Nat} {lexemes : List Lexeme} {e : Expr}
    (h : Derives level lexemes e cost) {operator : Operator} {symbol : Symbol} {sign : Lexeme}
    (hSign : sign.token = .symbol symbol) (hOperator : operator? symbol = some operator)
    (hLevel : level ≤ operator.precedence) {operand : List Lexeme} {right : Expr} {rightCost : Nat}
    (hOperand : Derives 5 operand right rightCost) :
    ∃ found, IsPhraseOf level (lexemes ++ sign :: operand) found := by
  have hBelow := precedence_lt_four operator
  have hRight : Derives (rightPrecedence operator) operand right rightCost :=
    hOperand.loosen (by cases operator <;> decide)
  induction h with
  | leaf | parenthesis | call | minus => omega
  | @tighter level lexemes e cost hTighter ih =>
      by_cases hTight : level + 1 ≤ operator.precedence
      · obtain ⟨found, hFound⟩ := ih hTight
        exact ⟨found, hFound.loosen (Nat.le_succ level)⟩
      · -- the whole phrase is the left operand of the operator
        have hSame : level = operator.precedence := by omega
        have hLeft := hTighter.loosen (show leftPrecedence operator ≤ level + 1 by
          subst hSame
          cases operator <;> decide)
        exact ⟨_, _, (Derives.binary hSign hOperator hLeft hRight).loosen (Nat.le_of_eq hSame)⟩
  | @binary other symbol' found first second left right' leftCost rightCost' hOther hFound hLeft
      hSecond ihLeft ihSecond =>
      by_cases hTight : rightPrecedence found ≤ operator.precedence
      · obtain ⟨e, cost, hLonger⟩ := ihSecond hTight
        exact ⟨_, _, by simpa using Derives.binary hOther hFound hLeft hLonger⟩
      · have hBinary := Derives.binary hOther hFound hLeft hSecond
        have hWhole := hBinary.loosen (show leftPrecedence operator ≤ found.precedence by
          revert hLevel hTight
          cases found <;> cases operator <;> decide)
        have hSame : found.precedence = operator.precedence := by
          revert hLevel hTight
          cases found <;> cases operator <;> decide
        exact ⟨_, _, (Derives.binary hSign hOperator hWhole hRight).loosen (Nat.le_of_eq hSame)⟩

/-! ### Inside of the parameters of a call -/

/-- The tokens are those of a call whose parameters have not been closed. -/
structure Unclosed (back : List Token) : Prop where
  declares : declares back = false
  compares : compares back = false
  opened : back.count (.symbol .rightParen) < back.count (.symbol .leftParen)

/-- The lexemes open as many parentheses as they close, and end no statement. -/
structure Balanced (lexemes : List Lexeme) : Prop where
  joins : Joins lexemes
  count : (lexemes.map Lexeme.token).count (.symbol .rightParen) =
    (lexemes.map Lexeme.token).count (.symbol .leftParen)

theorem declares_append {back : List Token} (h : back ≠ []) (tokens : List Token) :
    declares (tokens ++ back) = declares back := by
  simp only [declares, List.getLast?_append_of_ne_nil tokens h]

theorem compares_append {back : List Token} (h : back ≠ []) (hCompares : compares back = false)
    (tokens : List Token) : compares (tokens ++ back) = false := by
  simp only [compares, decide_eq_false_iff_not, not_and_or, not_not,
    List.getLast?_append_of_ne_nil tokens h, List.mem_append] at hCompares ⊢
  exact hCompares.imp_right Or.inr

/-- With more tokens they stay unclosed, unless they close more parentheses than they open. -/
theorem Unclosed.append {back tokens : List Token} (h : Unclosed back)
    (hCount : tokens.count (.symbol .rightParen) ≤ tokens.count (.symbol .leftParen)) :
    Unclosed (tokens ++ back) := by
  have hSome : back ≠ [] := by
    rintro rfl
    exact absurd h.opened (Nat.lt_irrefl 0)
  have hOpened := h.opened
  refine ⟨by rw [declares_append hSome, h.declares], compares_append hSome h.compares tokens, ?_⟩
  rw [List.count_append, List.count_append]
  omega

theorem Balanced.count_reverse {lexemes : List Lexeme} (h : Balanced lexemes) :
    (lexemes.map Lexeme.token).reverse.count (.symbol .rightParen) =
      (lexemes.map Lexeme.token).reverse.count (.symbol .leftParen) := by
  rw [List.count_reverse, List.count_reverse, h.count]

theorem Unclosed.along {spot : Spot} (h : Unclosed spot.back) {front : List Lexeme}
    (hFront : Balanced front) : Unclosed (spot.along front).back := by
  rw [Spot.along_back spot hFront.joins]
  exact h.append (Nat.le_of_eq hFront.count_reverse)

theorem inExpressions_joins {token : Token} (h : inExpressions token = true) :
    token.separates = false := by
  revert h
  cases token with
  | symbol sign => cases sign <;> decide
  | endOfInput => decide
  | _ => exact fun _ => rfl

/-- An expression opens as many parentheses as it closes. -/
theorem Derives.balanced {level cost : Nat} {lexemes : List Lexeme} {e : Expr}
    (h : Derives level lexemes e cost) : Balanced lexemes := by
  refine ⟨fun lexeme hMember => inExpressions_joins (h.tokens lexeme hMember), ?_⟩
  induction h with
  | @leaf lexeme e hLeaf =>
      have hLeft : lexeme.token ≠ .symbol .leftParen :=
        fun hToken => by simp [hToken, opening?] at hLeaf
      have hRight : lexeme.token ≠ .symbol .rightParen :=
        fun hToken => by simp [hToken, opening?] at hLeaf
      simp [hLeft, hRight]
  | parenthesis hOpening hInner hClosing ih => simp [hOpening, hClosing, ih]
  | call hName hOpening hInner hClosing ih => simp [hName, hOpening, hClosing, ih]
  | minus hSign hOperand ih => simp [hSign, ih]
  | @binary sign symbol operator first second left right leftCost rightCost hSign hOperator hLeft
      hRight ihLeft ihRight =>
      have hOther : symbol ≠ .leftParen ∧ symbol ≠ .rightParen := by
        constructor <;> rintro rfl <;> cases hOperator
      simp [hSign, hOther, ihLeft, ihRight]
  | tighter hTighter ih => exact ih

/-! ### Operands -/

/-- A spot in front of an operand: it does not stand behind a name, and only the parenthesis that
closes an empty list of parameters has been looked for. -/
structure Operand (spot : Spot) : Prop where
  unclosed : Unclosed spot.back
  behind : ∀ name, spot.back.head? ≠ some (.identifier name)
  fits : spot.Fits expressionStart

theorem operandOmits_cons {token : Token} (h : token ≠ .symbol .leftParen) (back : List Token) :
    operandOmits (token :: back) = [] := by
  unfold operandOmits
  split
  · simp_all
  · rfl

theorem omittedSymbols_expressionStart (back : List Token) :
    omittedSymbols back expressionStart = operandOmits back := rfl

/-- Behind a lexeme that is neither a name nor a parenthesis an operand can stand. -/
theorem Operand.past {spot : Spot} (h : Unclosed spot.back) {lexeme : Lexeme}
    (hJoins : lexeme.token.separates = false) (hName : ∀ name, lexeme.token ≠ .identifier name)
    (hLeft : lexeme.token ≠ .symbol .leftParen) (hRight : lexeme.token ≠ .symbol .rightParen) :
    Operand (spot.past lexeme) := by
  have hBack := spot.past_back hJoins
  have hUnclosed : Unclosed ([lexeme.token] ++ spot.back) := h.append (by simp [hLeft, hRight])
  refine ⟨by rwa [hBack], fun name => by simp [hBack, hName], ?_⟩
  rw [Spot.Fits, omittedSymbols_expressionStart, hBack, operandOmits_cons hLeft]
  rfl

/-- Behind a parenthesis that opens in front of an operand another operand can stand. -/
theorem Operand.inside {spot : Spot} (h : Operand spot) {opening : Lexeme}
    (hOpening : opening.token = .symbol .leftParen) : Operand (spot.past opening) := by
  have hBack : (spot.past opening).back = .symbol .leftParen :: spot.back := by
    rw [spot.past_eq hOpening]
    rfl
  have hUnclosed : Unclosed ([.symbol .leftParen] ++ spot.back) := h.unclosed.append (by simp)
  refine ⟨by rwa [hBack], fun name => by simp [hBack], ?_⟩
  rw [Spot.Fits, omittedSymbols_expressionStart, hBack]
  -- behind the parenthesis that opens a list of parameters, another one could close it
  unfold operandOmits
  split
  · rename_i hName
    exact absurd (by rw [(List.cons.inj hName).2]; rfl) (h.behind _)
  · rfl

/-- The parenthesis that closes a phrase in parentheses is asked for when the operators have been
refused that go on the phrase. -/
theorem fits_rightParen {spot : Spot} (h : Unclosed spot.back) {opening : Lexeme}
    (hOpening : opening.token = .symbol .leftParen) {inner : List Lexeme}
    (hInner : Balanced inner) :
    (((spot.past opening).along inner).refusing (operatorSigns 0)).Fits
      [.token (.symbol .rightParen)] := by
  have hBack : (spot.past opening).back = [.symbol .leftParen] ++ spot.back := by
    rw [spot.past_eq hOpening]
    rfl
  have hUnclosed : Unclosed (spot.past opening).back := by
    rw [hBack]
    exact h.append (by simp)
  have hInside := hUnclosed.along hInner
  have hNests : nests ((spot.past opening).along inner).back = true := by
    have hOpened := h.opened
    rw [nests, decide_eq_true_iff, Spot.along_back _ hInner.joins, hBack]
    simp only [List.count_append, hInner.count_reverse]
    simp
    omega
  refine Spot.fits_refusing (Spot.along_refused rfl inner) ?_
  simp [omittedSymbols, parenthesisOmits, hInside.declares, hInside.compares, hNests]

/-! ### Where an expression is finished -/

theorem unary_finishes {levels : Nat} {spot : Spot} {lexemes : List Lexeme} :
    Finishes (unary (expressionWithin levels 0)) (IsPhraseOf 4) (fun _ => []) spot lexemes := by
  intro e rest hRead
  obtain ⟨front, cost, hFront, hDerives, hCost, hHeight⟩ :=
    unary_taken (fun _ _ _ h => expressionWithin_sound (Nat.zero_le 4) h) hRead
  refine ⟨front, hFront, avoids_nil _, fun other _ => ?_, ⟨cost, hDerives⟩, goesOnWith_nil _ _⟩
  exact (hDerives.reads hCost).signed (Nat.le_refl 4) 0 other hHeight

theorem expressionWithin_finishes {levels lowest : Nat} (hLowest : lowest ≤ 4) {spot : Spot}
    {lexemes : List Lexeme} :
    Finishes (expressionWithin levels lowest) (IsPhraseOf lowest) (fun _ => operatorSigns lowest)
      spot lexemes := by
  intro e rest hRead
  obtain ⟨⟨front, cost, hFront, hDerives, hCost⟩, hHeight, hStops⟩ :=
    expressionWithin_sound hLowest hRead
  refine ⟨front, hFront, avoids_operatorSigns.mpr hStops, fun other hOther => ?_,
    ⟨cost, hDerives⟩, ?_⟩
  · obtain ⟨levels, rfl⟩ := Nat.exists_eq_add_of_le' (Nat.one_le_of_lt hCost)
    have hOther := avoids_operatorSigns.mp hOther
    have hEdge : lowest ≤ edge lowest := by
      unfold edge
      split <;> omega
    exact (hDerives.reads (Nat.le_of_lt_succ hCost)).expressionWithin hHeight (hOther.mono hEdge)
      hOther
  · intro symbol hMember sign hSign
    obtain ⟨operator, hOperator, hLevel⟩ := mem_operatorSigns.mp hMember
    have hPi : Derives 5 [Token.lexeme (.keyword .pi)] .pi 0 := .leaf rfl
    obtain ⟨found, hFound⟩ := hDerives.goesOn hSign hOperator hLevel hPi
    exact ⟨[_], found, by simpa using hFound⟩

/-! ### Where an expression gets stuck -/

section Stuck

variable {β : Type} {spot : Spot} {lexemes : List Lexeme}

/-- An expression that is not too high is no obstacle. -/
theorem bounded_bind_getsStuck {e : Expr} {next : Expr → Reader β} {phrase : List Lexeme → β → Prop}
    (h : e.height ≤ nestingLimit → GetsStuck (next e) phrase spot lexemes) :
    GetsStuck (bounded e >>= next) phrase spot lexemes := by
  by_cases hHigh : nestingLimit < e.height
  · exact .of_tooDeep (bind_of_error (bounded_of_lt hHigh lexemes))
  · have hHeight := Nat.le_of_not_lt hHigh
    have hSame : bounded e >>= next = next e :=
      funext fun other => bind_of_ok (bounded_of_le hHeight other)
    rw [hSame]
    exact h hHeight

theorem bounded_getsStuck (e : Expr) (phrase : List Lexeme → Expr → Prop) (spot : Spot)
    (lexemes : List Lexeme) : GetsStuck (bounded e) phrase spot lexemes := by
  by_cases hHigh : nestingLimit < e.height
  · exact .of_tooDeep (bounded_of_lt hHigh lexemes)
  · exact .of_ok (bounded_of_le (Nat.le_of_not_lt hHigh) lexemes)

/-- What can begin an expression is a minus, or begins a primary phrase. -/
theorem describes_expressionStart {lexeme : Lexeme} :
    (∃ expectation ∈ expressionStart, expectation.Describes lexeme) ↔
      lexeme.token = .symbol .minus ∨ (opening? lexeme.token).isSome = true := by
  cases hToken : lexeme.token with
  | keyword word =>
      cases word <;> simp [expressionStart, Expectation.Describes, Token.kind, opening?, hToken]
  | symbol sign =>
      cases sign <;> simp [expressionStart, Expectation.Describes, Token.kind, opening?, hToken]
  | _ => simp [expressionStart, Expectation.Describes, Token.kind, opening?, hToken]

/-- The argument of a function, and the parenthesis behind it. -/
def argumentLexemes : List Lexeme := [.keyword .pi, .symbol .rightParen].map Token.lexeme

theorem call_argument {name opening : Lexeme} {f : MathFunction} (hName : name.token = .function f)
    (hOpening : opening.token = .symbol .leftParen) :
    IsPhraseOf 4 (name :: opening :: argumentLexemes) (.call f .pi) := by
  have hPi : Derives 5 [Token.lexeme (.keyword .pi)] .pi 0 := .leaf rfl
  have hRight : (Token.lexeme (.symbol .rightParen)).token = .symbol .rightParen := rfl
  exact ⟨_, .tighter (.call hName hOpening (hPi.loosen (Nat.zero_le 5)) hRight)⟩

/-- With each of the lexemes that can begin an expression a signed phrase begins. -/
theorem begins_signed {lexeme : Lexeme}
    (h : lexeme.token = .symbol .minus ∨ (opening? lexeme.token).isSome = true) :
    Begins (IsPhraseOf 4) [lexeme] := by
  have hPi : Derives 5 [Token.lexeme (.keyword .pi)] .pi 0 := .leaf rfl
  obtain hMinus | hSome := h
  · exact ⟨[_], _, _, .minus hMinus (.tighter hPi)⟩
  · obtain ⟨opening, hOpening⟩ := Option.isSome_iff_exists.mp hSome
    cases opening with
    | leaf e => exact ⟨[], e, 0, .tighter (.leaf hOpening)⟩
    | function f =>
        have hLeft : (Token.lexeme (.symbol .leftParen)).token = .symbol .leftParen := rfl
        exact ⟨_ :: argumentLexemes, _, call_argument (opening?_function hOpening) hLeft⟩
    | parenthesis =>
        have hInner := hPi.loosen (Nat.zero_le 5)
        have hRight : (Token.lexeme (.symbol .rightParen)).token = .symbol .rightParen := rfl
        exact ⟨argumentLexemes, _, _, .tighter
          (.parenthesis (opening?_parenthesis hOpening) hInner hRight)⟩

variable {levels : Nat}

/-- An expression in parentheses, and behind it what is never stuck. -/
theorem endedBy_getsStuck (hSpot : Operand spot) {opening : Lexeme}
    (hOpening : opening.token = .symbol .leftParen)
    (hInner : ∀ spot lexemes, Operand spot →
      GetsStuck (expressionWithin levels 0) (IsPhraseOf 0) spot lexemes)
    {next : Expr → Reader β} {whole : List Lexeme → β → Prop}
    (hFinish : ∀ inner e closing, IsPhraseOf 0 inner e → closing.token = .symbol .rightParen →
      ∃ result, whole (inner ++ [closing]) result)
    (hNext : ∀ e phrase spot lexemes, GetsStuck (next e) phrase spot lexemes) :
    GetsStuck (endedBy .rightParen (expressionWithin levels 0) >>= next) whole (spot.past opening)
      lexemes := by
  simp only [endedBy, bind_assoc, pure_bind]
  refine (hInner _ lexemes (hSpot.inside hOpening)).bind (expressionWithin_finishes (Nat.zero_le 4))
    (fun inner e hPart => ?_) fun inner e rest _ _ hFinished => ?_
  · obtain ⟨result, hWhole⟩ := hFinish inner e (Token.lexeme (.symbol .rightParen)) hPart rfl
    exact ⟨[_], result, hWhole⟩
  · obtain ⟨cost, hDerives⟩ := hFinished.taken
    have hSymbol := symbol_tells (fits_rightParen hSpot.unclosed hOpening hDerives.balanced) rest
    refine hSymbol.getsStuck.bind hSymbol.finishes (fun part _ hPart => ?_)
      fun _ _ _ _ _ _ => hNext _ _ _ _
    obtain ⟨hClosing⟩ := hPart
    obtain ⟨result, hWhole⟩ := hFinish inner e _ hFinished.taken hClosing
    exact ⟨[], result, by simpa using hWhole⟩

/-- A signed phrase is stuck in front of what begins no expression. -/
theorem signed_stuckHere (seen : Nat) (hSpot : Operand spot)
    (hMisses : Misses expressionStart lexemes) :
    GetsStuck (signed levels seen) (IsPhraseOf 4) spot lexemes := by
  refine .here (fun other hOther => ?_) hMisses (fun expectation hMember lexeme hLexeme => ?_)
    (by decide) hSpot.fits
  · cases other with
    | nil => rfl
    | cons first rest =>
        have hNone := mt describes_expressionStart.mpr
          (not_exists.mpr fun e hE => hOther first rfl e hE.1 hE.2)
        obtain ⟨hMinus, hOpening⟩ := not_or.mp hNone
        rw [Option.not_isSome_iff_eq_none] at hOpening
        rw [signed_cons hMinus, bind_of_error]
        simp only [primary, hOpening]
  · exact begins_signed (describes_expressionStart.mp ⟨expectation, hMember, hLexeme⟩)

/-- A primary phrase that has been begun, behind some minus signs. -/
theorem primary_getsStuck
    (hInner : ∀ spot lexemes, Operand spot →
      GetsStuck (expressionWithin levels 0) (IsPhraseOf 0) spot lexemes)
    (seen : Nat) (hSpot : Operand spot) {first : Lexeme} {opening : Opening}
    (hOpening : opening? first.token = some opening) (rest : List Lexeme) :
    GetsStuck (signed levels seen) (IsPhraseOf 4) spot (first :: rest) := by
  have hMinus := opening?_ne_minus hOpening
  cases opening with
  | leaf e =>
      have hSame (other : List Lexeme) :
          signed levels seen (first :: other) = bounded (negated seen e) other := by
        rw [signed_cons hMinus, bind_of_ok (primary_leaf hOpening other)]
      exact .cons hSame (bounded_getsStuck _ _ _ _)
  | parenthesis =>
      have hToken := opening?_parenthesis hOpening
      have hSame (other : List Lexeme) : signed levels seen (first :: other) =
          (endedBy .rightParen (expressionWithin levels 0) >>= fun e => bounded (negated seen e))
            other := by
        rw [signed_cons hMinus]
        exact bind_congr_at (primary_parenthesis hToken other)
      refine .cons hSame (endedBy_getsStuck hSpot hToken hInner
        (fun inner e closing hPart hClosing => ?_) fun _ _ _ _ => bounded_getsStuck _ _ _ _)
      obtain ⟨cost, hDerives⟩ := hPart
      exact ⟨_, _, .tighter (.parenthesis hToken hDerives hClosing)⟩
  | function f =>
      have hToken := opening?_function hOpening
      have hSame (other : List Lexeme) : signed levels seen (first :: other) =
          (symbol .leftParen >>= fun _ => endedBy .rightParen (expressionWithin levels 0) >>=
            fun argument => bounded (.call f argument) >>= fun e => bounded (negated seen e))
              other := by
        have hCall : primary (expressionWithin levels 0) (first :: other) =
            callOf (expressionWithin levels 0) f other := by simp only [primary, hOpening]
        rw [signed_cons hMinus, bind_congr_at hCall]
        simp only [callOf, bind_assoc]
      have hBehind : Operand (spot.past first) := by
        apply Operand.past hSpot.unclosed <;> simp [hToken, Token.separates]
      have hFits : (spot.past first).Fits [.token (.symbol .leftParen)] := rfl
      have hSymbol := symbol_tells hFits rest
      refine .cons hSame (hSymbol.getsStuck.bind hSymbol.finishes (fun part _ hPart => ?_)
        fun part _ behind _ _ hFinished => ?_)
      · obtain ⟨hLeft⟩ := hPart
        exact ⟨argumentLexemes, _, call_argument hToken hLeft⟩
      · obtain ⟨hLeft⟩ := hFinished.taken
        refine endedBy_getsStuck hBehind hLeft hInner (fun inner e closing hPart hClosing => ?_)
          fun _ _ _ _ => bounded_bind_getsStuck fun _ => bounded_getsStuck _ _ _ _
        obtain ⟨cost, hDerives⟩ := hPart
        exact ⟨_, _, .tighter (.call hToken hLeft hDerives hClosing)⟩

/-- A signed phrase behind some minus signs. -/
theorem signed_getsStuck
    (hInner : ∀ spot lexemes, Operand spot →
      GetsStuck (expressionWithin levels 0) (IsPhraseOf 0) spot lexemes)
    (seen : Nat) (hSpot : Operand spot) :
    GetsStuck (signed levels seen) (IsPhraseOf 4) spot lexemes := by
  induction lexemes generalizing seen spot with
  | nil => exact signed_stuckHere seen hSpot (misses_at_end _)
  | cons first rest ih =>
      by_cases hMinus : first.token = .symbol .minus
      · by_cases hLast : seen = nestingLimit
        · exact .of_tooDeep (bind_of_error (by rw [minusSigns, if_pos hMinus, if_pos hLast]))
        · have hBehind : Operand (spot.past first) := by
            apply Operand.past hSpot.unclosed <;> simp [hMinus, Token.separates]
          refine .cons (signed_minus hMinus hLast) ((ih (seen + 1) hBehind).mono ?_)
          rintro part e ⟨cost, hDerives⟩
          exact ⟨[], _, _, by simpa using .minus hMinus hDerives⟩
      · cases hOpening : opening? first.token with
        | some opening => exact primary_getsStuck hInner seen hSpot hOpening rest
        | none =>
            refine signed_stuckHere seen hSpot ?_
            rintro _ ⟨⟩ expectation hMember hDescribes
            obtain hToken | hSome := describes_expressionStart.mp ⟨expectation, hMember, hDescribes⟩
            · exact hMinus hToken
            · rw [hOpening] at hSome
              cases hSome

/-- Behind a left operand an expression is stuck where the right operand of some operator is. -/
theorem climb_getsStuck {levels lowest level : Nat} {left : Expr} {front lexemes : List Lexeme}
    {spot : Spot}
    (hInner : ∀ bound ≤ 4, ∀ spot lexemes, Operand spot →
      GetsStuck (expressionWithin levels bound) (IsPhraseOf bound) spot lexemes)
    (hLeft : IsPhraseOf level front left) (hEdge : Stops (edge level) lexemes)
    (hSpot : Unclosed spot.back) :
    GetsStuck (climb (expressionWithin levels) lowest left)
      (fun part => IsPhraseOf lowest (front ++ part)) spot lexemes := by
  by_cases hStops : Stops lowest lexemes
  · exact .of_ok (climb_stops hStops left)
  · rw [Stops] at hStops
    push Not at hStops
    obtain ⟨operator, behind, hFront, hTight⟩ := hStops
    obtain ⟨sign, symbol, rfl, hSign, hOperator⟩ := frontOperator?_eq_some hFront
    have hBound : rightPrecedence operator ≤ 4 := by cases operator <;> decide
    have hBinary {second : List Lexeme} {right : Expr}
        (hRight : IsPhraseOf (rightPrecedence operator) second right) :
        IsPhraseOf operator.precedence (front ++ sign :: second) (.binary operator left right) := by
      obtain ⟨leftCost, hLeft⟩ := hLeft.loosen (leftPrecedence_le (hEdge _ _ hFront))
      obtain ⟨rightCost, hRight⟩ := hRight
      exact ⟨_, .binary hSign hOperator hLeft hRight⟩
    have hBehind : Operand (spot.past sign) := by
      apply Operand.past hSpot <;> cases symbol <;> cases hOperator <;>
        simp [hSign, Token.separates]
    refine .cons (fun other => climb_eq (frontOperator?_cons hSign hOperator other) hTight) ?_
    refine (hInner _ hBound _ behind hBehind).bind (expressionWithin_finishes hBound)
      (fun second right hRight => ?_) fun second right rest _ hAvoids hFinished =>
        bounded_bind_getsStuck fun hHeight => ?_
    · exact ⟨[], _, by simpa using (hBinary hRight).loosen hTight⟩
    · have hHere := hBinary hFinished.taken
      have hEdge' : Stops (edge operator.precedence) rest := by
        rw [edge_precedence operator]
        exact avoids_operatorSigns.mp hAvoids
      have hHigher := Expr.height_left_lt operator left right
      obtain ⟨cost, hDerives⟩ := hFinished.taken
      have hAlong : Unclosed (((spot.past sign).along second).refusing
          (operatorSigns (rightPrecedence operator))).back :=
        hBehind.unclosed.along hDerives.balanced
      exact (climb_getsStuck hInner hHere hEdge' hAlong).mono
        fun part e hPart => ⟨[], e, by simpa using hPart⟩
termination_by nestingLimit - left.height

/-- An expression is stuck in front of an operand, or behind a phrase in parentheses. -/
theorem expressionWithin_getsStuck {lowest : Nat} (hLowest : lowest ≤ 4) (hSpot : Operand spot) :
    GetsStuck (expressionWithin levels lowest) (IsPhraseOf lowest) spot lexemes := by
  induction levels generalizing lowest spot lexemes with
  | zero => exact .of_tooDeep rfl
  | succ levels ih =>
      refine (signed_getsStuck (fun _ _ hSpot => ih (Nat.zero_le 4) hSpot) 0 hSpot).bind
        unary_finishes (fun part left hLeft => ?_) fun front left rest _ _ hFinished => ?_
      · exact ⟨[], left, by simpa using hLeft.loosen hLowest⟩
      · obtain ⟨cost, hDerives⟩ := hFinished.taken
        exact climb_getsStuck (fun bound hBound _ _ hSpot => ih hBound hSpot) hFinished.taken
          (stops_four rest) (hSpot.unclosed.along hDerives.balanced)

end Stuck

/-- **Expressions.**  In front of an operand, an expression goes on with every operator. -/
theorem expression_tells {spot : Spot} (hSpot : Operand spot) (lexemes : List Lexeme) :
    Tells expression IsFormula (fun _ => operatorSigns 0) spot lexemes where
  finishes := expressionWithin_finishes (Nat.zero_le 4)
  getsStuck := expressionWithin_getsStuck (Nat.zero_le 4) hSpot
  inhabited := ⟨_, _, isPhraseOf_pi (Nat.zero_le 5)⟩

end Grammar
end QuantumCircuit
