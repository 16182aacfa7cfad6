import QuantumCircuit.Proofs.Grammar.FirstError

/-!
# What a syntax error leaves out

A reader that looks for a symbol in vain reads on without it, and where it fails in front of the
same lexeme it does not mention the symbol any more.  What could have stood there is what it
expects and what it omits; the omitted symbols are known from the lexemes behind which it fails.

* `CanStand` : the lexemes with which what has been read goes on to a program, or ends as one.
* `recent` : the tokens of the statement, or of the call in a body, that has been begun.
* `omitted` : what could stand besides some expectations.
* `not_listed_of_omitted` : what is omitted is not listed.
* `Accounts` : what is expected and what is omitted is all that can stand.
-/

namespace QuantumCircuit

/-- Does the token end the input, a statement or a call in the body of a gate, or begin such a
body? -/
def Token.separates : Token → Bool
  | .symbol .semicolon | .symbol .leftBrace | .symbol .rightBrace | .endOfInput => true
  | _ => false

namespace Grammar

/-- A lexeme can stand behind others: with it they go on to a program of the mode, or it ends the
input and they are one. -/
def CanStand (mode : Mode) (before : List Lexeme) (lexeme : Lexeme) : Prop :=
  GoesOn mode (before ++ [lexeme]) ∨
    lexeme.token = .endOfInput ∧ ∃ found, IsProgramOf mode before found

/-! ### The tokens that decide -/

/-- One more token behind those of a begun statement, the last one first. -/
def joined (back : List Token) (token : Token) : List Token :=
  if token.separates then [] else token :: back

/-- The tokens of the statement, or of the call in a body, that has been begun, the last one
first. -/
def recent (tokens : List Token) : List Token := tokens.foldl joined []

/-- The operators that bind at least as tightly as asked for. -/
def operatorSigns (lowest : Nat) : List Symbol :=
  [.plus, .minus, .star, .slash, .caret].filter fun sign =>
    (operator? sign).any fun operator => lowest ≤ operator.precedence

theorem mem_operatorSigns {lowest : Nat} {sign : Symbol} :
    sign ∈ operatorSigns lowest ↔
      ∃ operator, operator? sign = some operator ∧ lowest ≤ operator.precedence := by
  cases sign <;> simp [operatorSigns, operator?]

/-- Do the tokens begin the declaration of a gate? -/
def declares (back : List Token) : Bool :=
  back.getLast? = some (.keyword .gate) ∨ back.getLast? = some (.keyword .opaqueGate)

/-- Do the tokens begin a condition that has not been closed? -/
def compares (back : List Token) : Bool :=
  back.getLast? = some (.keyword .condition) ∧ Token.symbol .rightParen ∉ back

/-- Are there two parentheses or more that have not been closed? -/
def nests (back : List Token) : Bool :=
  back.count (.symbol .rightParen) + 1 < back.count (.symbol .leftParen)

/-! ### What is omitted -/

/-- A reference can take an index behind its name. -/
def indexSigns : List Token → List Symbol
  | .identifier _ :: _ => [.leftBracket]
  | _ => []

theorem eq_leftBracket_of_mem_indexSigns {sign : Symbol} {back : List Token}
    (h : sign ∈ indexSigns back) : sign = .leftBracket := by
  unfold indexSigns at h
  split at h <;> simp_all

/-- In front of a name: parameters can begin behind the name of a gate, and they can end at
once. -/
def nameOmits : List Token → List Symbol
  | .identifier _ :: _ => [.leftParen]
  | .symbol .leftParen :: .identifier _ :: _ => [.rightParen]
  | _ => []

/-- In front of an expression: the parameters of a call can end at once. -/
def operandOmits : List Token → List Symbol
  | .symbol .leftParen :: .identifier _ :: _ => [.rightParen]
  | _ => []

theorem eq_rightParen_of_mem_operandOmits {sign : Symbol} {back : List Token}
    (h : sign ∈ operandOmits back) : sign = .rightParen := by
  unfold operandOmits at h
  split at h <;> simp_all

/-- In front of a closing parenthesis: formal parameters go on with a comma, an expression goes on
with an operator, and if it is a parameter, with a comma too. -/
def parenthesisOmits (back : List Token) : List Symbol :=
  if declares back then [.comma]
  else if compares back then []
  else if nests back then operatorSigns 0
  else .comma :: operatorSigns 0

/-- In front of a semicolon: a list goes on with a comma, a reference with an index. -/
def semicolonOmits (back : List Token) : List Symbol :=
  match back.getLast? with
  | some (.keyword .opaqueGate) => [.comma]
  | some (.keyword .measure) | some (.keyword .reset) => indexSigns back
  | some (.keyword .barrier) | some (.keyword .condition) | some (.identifier _) =>
    .comma :: indexSigns back
  | _ => []

/-- The symbols that could stand besides some expectations, behind the tokens of a begun
statement. -/
def omittedSymbols (back : List Token) (expected : List Expectation) : List Symbol :=
  match expected with
  | [.token .identifier] => nameOmits back
  | [.token (.symbol .rightParen)] => parenthesisOmits back
  | [.token (.symbol .arrow)] => indexSigns back
  | [.token (.symbol .semicolon)] => semicolonOmits back
  | [.token (.symbol .leftBrace)] => [.comma]
  | _ => if expected = expressionStart then operandOmits back else []

/-- What could stand besides some expectations, behind some tokens; where a statement can begin,
the input can end. -/
def omitted (tokens : List Token) (expected : List Expectation) : List Expectation :=
  (omittedSymbols (recent tokens) expected).map (fun sign => .token (.symbol sign)) ++
    if expected = statementStart ∨ expected = declarationStart then [.token .endOfInput] else []

/-- A symbol is described as no other one is. -/
theorem description_symbol_not_mem {sign other : Symbol} (h : sign ≠ other) :
    (Expectation.token (.symbol sign)).description ∉
      [Expectation.token (.symbol other)].map Expectation.description := by
  revert h
  cases sign <;> cases other <;> decide

/-- What is omitted is not listed. -/
theorem not_listed_of_omitted {tokens : List Token} {expected : List Expectation}
    {expectation : Expectation} (h : expectation ∈ omitted tokens expected) :
    expectation.description ∉ expected.map Expectation.description := by
  rw [omitted, List.mem_append] at h
  obtain hSymbol | hEnd := h
  · obtain ⟨sign, hSign, rfl⟩ := List.mem_map.mp hSymbol
    unfold omittedSymbols at hSign
    split at hSign
    · cases sign <;> decide
    · apply description_symbol_not_mem
      rintro rfl
      revert hSign
      simp only [parenthesisOmits]
      split_ifs <;> simp [mem_operatorSigns, operator?]
    · apply description_symbol_not_mem
      rw [eq_leftBracket_of_mem_indexSigns hSign]
      decide
    · apply description_symbol_not_mem
      rintro rfl
      have hIndex : Symbol.semicolon ∉ indexSigns (recent tokens) :=
        fun hMember => Symbol.noConfusion (eq_leftBracket_of_mem_indexSigns hMember)
      revert hSign
      unfold semicolonOmits
      split <;> simp [hIndex]
    · apply description_symbol_not_mem
      rw [List.mem_singleton.mp hSign]
      decide
    · split at hSign
      · rename_i hExpression
        rw [hExpression, eq_rightParen_of_mem_operandOmits hSign]
        decide
      · cases hSign
  · split at hEnd
    · rename_i hStart
      obtain rfl := List.mem_singleton.mp hEnd
      obtain rfl | rfl := hStart <;> decide
    · cases hEnd

/-- The expectations and what they omit describe the lexemes that can stand behind others, and no
other lexemes. -/
def Accounts (mode : Mode) (before : List Lexeme) (expected : List Expectation) : Prop :=
  ∀ lexeme, CanStand mode before lexeme ↔
    ∃ expectation ∈ expected ++ omitted (before.map Lexeme.token) expected,
      expectation.Describes lexeme

end Grammar
end QuantumCircuit
