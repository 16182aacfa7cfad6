import Mathlib.Tactic.Common
import QuantumCircuit.Proofs.Grammar.Statement

/-!
# Steps of a cursor

The readers of the grammar pass the lexemes that are left from one to the next.  Here a phrase is
read by steps that move a cursor over all the lexemes and count how deep operands stand within
operands.  The steps recurse without a bound, so that a run of them might have no end, and each
look at a lexeme, each move and each change of the depth is checked, so that a run might go
astray.

* `Steps` : steps that give a value.
* `Cursor.Faces` : what a cursor has in front of it.
* `Follows` : the steps end as a reader does, with the cursor behind what the reader took.
* `Follows.bind` : following is kept in sequence.
* `Follows.more`, `Follows.loop` : and by the loops, by induction on the lexemes that are left.
-/

namespace QuantumCircuit

open Grammar (Reader Mismatch Expectation nestingLimit Shortens)

/-- A place in a list of lexemes, and how many expressions have been begun there and not been
read to their end. -/
structure Cursor where
  lexemes : List Lexeme
  index : Nat
  depth : Nat
deriving DecidableEq, Repr

/-- Why steps have no value. -/
inductive Halt where
  /-- The lexeme at the cursor does not fit. -/
  | refused (error : SyntaxError)
  /-- The cursor would leave the lexemes, or the depth would get below zero. -/
  | astray
deriving DecidableEq, Repr

/-- Steps that move a cursor and give a value.  A run without end has no outcome. -/
abbrev Steps (α : Type) := StateT Cursor (ExceptT Halt Option) α

variable {α β : Type} {cursor after : Cursor} {lexeme final : Lexeme} {rest : List Lexeme}

/-- The steps end with a value. -/
def Steps.Returns (steps : Steps α) (cursor : Cursor) (value : α) (after : Cursor) : Prop :=
  (steps.run cursor).run = some (.ok (value, after))

/-- The steps end without a value. -/
def Steps.Halts (steps : Steps α) (cursor : Cursor) (halt : Halt) : Prop :=
  (steps.run cursor).run = some (.error halt)

/-! ### Single steps -/

namespace Cursor

/-- The lexeme at the cursor. -/
def current : Steps Lexeme := do
  let cursor ← get
  match cursor.lexemes[cursor.index]? with
  | some lexeme => return lexeme
  | none => throw .astray

/-- Takes the lexeme at the cursor.  The cursor stays on an end of the input. -/
def advance : Steps Lexeme := do
  let lexeme ← current
  if lexeme.isEnd then return lexeme
  let cursor ← get
  if cursor.index + 1 < cursor.lexemes.length then
    set { cursor with index := cursor.index + 1 }
    return lexeme
  else throw .astray

/-- Refuses the lexeme at the cursor. -/
def unexpected (expected : List Expectation) : Steps α := do
  let lexeme ← current
  throw (.refused ⟨lexeme.position, expected.map Expectation.description, lexeme.found⟩)

/-- Takes a lexeme that `select` accepts. -/
def one (select : Lexeme → Option α) (expected : List Expectation) : Steps α := do
  let lexeme ← current
  match select lexeme with
  | some value =>
    let _ ← advance
    return value
  | none => unexpected expected

/-- Takes a symbol. -/
def symbol (sign : Symbol) : Steps Unit :=
  one (fun lexeme => if lexeme.token = .symbol sign then some () else none)
    [.token (.symbol sign)]

/-- Takes a keyword and gives its place. -/
def keyword (word : Keyword) : Steps Position :=
  one (fun lexeme => if lexeme.token = .keyword word then some lexeme.position else none)
    [.token (.keyword word)]

/-- Takes an identifier and gives its name and its place. -/
def identifier : Steps (String × Position) :=
  one (fun lexeme =>
    match lexeme.token with
    | .identifier name => some (name, lexeme.position)
    | _ => none) [.token .identifier]

/-- Takes an integer. -/
def integer : Steps UInt64 :=
  one (fun lexeme =>
    match lexeme.token with
    | .integer value => some value
    | _ => none) [.token .integer]

/-- Takes a string and gives its content. -/
def string : Steps String :=
  one (fun lexeme =>
    match lexeme.token with
    | .string content => some content
    | _ => none) [.token .string]

/-- Is there a symbol at the cursor? -/
def check (sign : Symbol) : Steps Bool := do
  let lexeme ← current
  return lexeme.token = .symbol sign

/-- Takes a symbol if it is at the cursor, and says whether it was. -/
def consume (sign : Symbol) : Steps Bool := do
  if ← check sign then
    let _ ← advance
    return true
  else return false

/-- Begins an expression; there may be only so many within one another. -/
def enter : Steps Unit := do
  let cursor ← get
  if nestingLimit ≤ cursor.depth then unexpected [.shallowerNesting]
  else set { cursor with depth := cursor.depth + 1 }

/-- Ends an expression. -/
def leave : Steps Unit := do
  let cursor ← get
  if cursor.depth = 0 then throw .astray
  else set { cursor with depth := cursor.depth - 1 }

end Cursor

/-! ### Loops -/

namespace Steps

/-- Goes on with `item` for as long as there is a comma. -/
def more (item : Steps α) (found : List α) : Steps (List α) := do
  if ← Cursor.consume .comma then
    let value ← item
    item |>.more (found ++ [value])
  else return found
partial_fixpoint

/-- Takes an item, and another one behind every comma. -/
def list (item : Steps α) : Steps (List α) := do
  let first ← item
  item.more [first]

/-- Takes items up to a lexeme that is `done`. -/
def loop (item : Steps α) (done : Lexeme → Bool) (found : List α) : Steps (List α) := do
  let lexeme ← Cursor.current
  if done lexeme then return found
  else
    let value ← item
    item |>.loop done (found ++ [value])
partial_fixpoint

end Steps

/-! ### What a cursor faces -/

namespace Cursor

/-- In front of the cursor stand the lexemes of `rest`, up to the end of the input `final`. -/
structure Faces (cursor : Cursor) (rest : List Lexeme) (final : Lexeme) : Prop where
  ahead : ∃ others, cursor.lexemes.drop cursor.index = rest ++ final :: others
  proper : ∀ lexeme ∈ rest, lexeme.isEnd = false
  final : final.isEnd = true

/-- The cursor some lexemes further on. -/
def passing (cursor : Cursor) (count : Nat) : Cursor :=
  { cursor with index := cursor.index + count }

/-- The cursor within one more expression. -/
def deeper (cursor : Cursor) : Cursor := { cursor with depth := cursor.depth + 1 }

@[simp] theorem passing_passing (cursor : Cursor) (first second : Nat) :
    (cursor.passing first).passing second = cursor.passing (first + second) := by
  simp [passing, Nat.add_assoc]

@[simp] theorem lexemes_passing (cursor : Cursor) (count : Nat) :
    (cursor.passing count).lexemes = cursor.lexemes := rfl

@[simp] theorem index_passing (cursor : Cursor) (count : Nat) :
    (cursor.passing count).index = cursor.index + count := rfl

namespace Faces

/-- The lexemes in front of the cursor are there. -/
theorem getElem? (h : cursor.Faces rest final) :
    cursor.lexemes[cursor.index]? = some (rest.headD final) := by
  obtain ⟨others, hAhead⟩ := h.ahead
  rw [← List.head?_drop, hAhead]
  cases rest <;> rfl

theorem final_token (h : cursor.Faces rest final) : final.token = .endOfInput :=
  of_decide_eq_true h.final

/-- A symbol at the cursor is the first of the lexemes. -/
theorem symbol_eq (h : cursor.Faces rest final) (sign : Symbol) :
    decide ((rest.headD final).token = .symbol sign) = (Grammar.accept? sign rest).isSome := by
  cases rest with
  | nil => simp [Grammar.accept?, h.final_token]
  | cons lexeme others =>
      by_cases hToken : lexeme.token = .symbol sign <;> simp [Grammar.accept?, hToken]

theorem length_lt (h : cursor.Faces rest final) :
    cursor.index + rest.length < cursor.lexemes.length := by
  obtain ⟨others, hAhead⟩ := h.ahead
  have hLength := congrArg List.length hAhead
  rw [List.length_drop, List.length_append, List.length_cons] at hLength
  omega

/-- Behind some of the lexemes the others are left. -/
theorem passing {front behind : List Lexeme} (h : cursor.Faces (front ++ behind) final) :
    (cursor.passing front.length).Faces behind final := by
  obtain ⟨others, hAhead⟩ := h.ahead
  refine ⟨⟨others, ?_⟩, fun lexeme hMember => h.proper lexeme ?_, h.final⟩
  · rw [lexemes_passing, index_passing, ← List.drop_drop, hAhead, List.append_assoc,
      List.drop_left]
  · exact List.mem_append_right _ hMember

/-- Behind the first lexeme the others are left. -/
theorem behind (h : cursor.Faces (lexeme :: rest) final) : (cursor.passing 1).Faces rest final :=
  (show cursor.Faces ([lexeme] ++ rest) final from h).passing

theorem deeper (h : cursor.Faces rest final) : cursor.deeper.Faces rest final :=
  ⟨h.ahead, h.proper, h.final⟩

end Faces

end Cursor

/-! ### Runs in sequence -/

namespace Steps

variable {steps : Steps α} {next : α → Steps β} {value : α} {halt : Halt}

theorem Returns.bind {found : β} {behind : Cursor} (h : steps.Returns cursor value after)
    (hNext : (next value).Returns after found behind) :
    (steps >>= next).Returns cursor found behind := by
  unfold Returns at h hNext ⊢
  rw [StateT.run_bind, ExceptT.run_bind, h]
  exact hNext

theorem Returns.bind_halts (h : steps.Returns cursor value after)
    (hNext : (next value).Halts after halt) : (steps >>= next).Halts cursor halt := by
  unfold Returns at h
  unfold Halts at hNext ⊢
  rw [StateT.run_bind, ExceptT.run_bind, h]
  exact hNext

theorem Halts.bind (h : steps.Halts cursor halt) : (steps >>= next).Halts cursor halt := by
  unfold Halts at h ⊢
  rw [StateT.run_bind, ExceptT.run_bind, h]
  rfl

theorem returns_pure (value : α) (cursor : Cursor) :
    (pure value : Steps α).Returns cursor value cursor := rfl

theorem returns_get (cursor : Cursor) : (get : Steps Cursor).Returns cursor cursor cursor := rfl

end Steps

theorem current_returns (h : cursor.Faces rest final) :
    Cursor.current.Returns cursor (rest.headD final) cursor := by
  refine (Steps.returns_get cursor).bind ?_
  rw [h.getElem?]
  rfl

theorem advance_returns (h : cursor.Faces (lexeme :: rest) final) :
    Cursor.advance.Returns cursor lexeme (cursor.passing 1) := by
  have hNext := h.length_lt
  rw [List.length_cons] at hNext
  refine (current_returns h).bind ?_
  rw [List.headD_cons, h.proper lexeme List.mem_cons_self, if_neg Bool.false_ne_true]
  refine (Steps.returns_get cursor).bind ?_
  rw [if_pos (by omega)]
  rfl

theorem check_returns (sign : Symbol) (h : cursor.Faces rest final) :
    (Cursor.check sign).Returns cursor (Grammar.accept? sign rest).isSome cursor := by
  refine (current_returns h).bind ?_
  rw [h.symbol_eq sign]
  exact Steps.returns_pure _ _

theorem consume_returns_true {sign : Symbol} (h : cursor.Faces (lexeme :: rest) final)
    (hToken : lexeme.token = .symbol sign) :
    (Cursor.consume sign).Returns cursor true (cursor.passing 1) := by
  refine (check_returns sign h).bind ?_
  rw [Grammar.accept?_cons hToken]
  exact (advance_returns h).bind (Steps.returns_pure _ _)

theorem consume_returns_false {sign : Symbol} (h : cursor.Faces rest final)
    (hOther : Grammar.accept? sign rest = none) :
    (Cursor.consume sign).Returns cursor false cursor := by
  refine (check_returns sign h).bind ?_
  rw [hOther]
  exact Steps.returns_pure _ _

theorem enter_returns (h : cursor.depth < nestingLimit) :
    Cursor.enter.Returns cursor () cursor.deeper := by
  refine (Steps.returns_get cursor).bind ?_
  rw [if_neg (by omega)]
  rfl

theorem leave_returns (cursor : Cursor) : Cursor.leave.Returns cursor.deeper () cursor := by
  refine (Steps.returns_get cursor.deeper).bind ?_
  rw [if_neg (show cursor.deeper.depth ≠ 0 from Nat.succ_ne_zero cursor.depth)]
  rfl

/-! ### Following a reader -/

namespace Grammar

/-- Reads on in a list of which some items have been found. -/
def continued (item : Reader α) (progress : Shortens item) (found : List α) : Reader (List α) :=
  ifNext .comma
    (do
      let values ← (separated item progress : Reader (List α))
      return found ++ values)
    (return found)

theorem separated_eq_continued {item : Reader α} (progress : Shortens item) :
    separated item progress = item >>= fun value => continued item progress [value] :=
  separated_eq progress

theorem continued_cons {item : Reader α} (progress : Shortens item) (found : List α)
    {comma : Lexeme} (hComma : comma.token = .symbol .comma) (rest : List Lexeme) :
    continued item progress found (comma :: rest) =
      (item >>= fun value => continued item progress (found ++ [value])) rest := by
  rw [continued, ifNext, accept?_cons hComma]
  dsimp only
  rw [separated_eq_continued]
  simp only [continued, ifNext_bind, bind_assoc, pure_bind, List.append_assoc]

/-- Reads on in a row of items of which some have been found. -/
def resumed (item : Reader α) (progress : Shortens item) (done : List Lexeme → Bool)
    (found : List α) : Reader (List α) := do
  let values ← (repeated item progress done : Reader (List α))
  return found ++ values

theorem resumed_nil {item : Reader α} (progress : Shortens item) (done : List Lexeme → Bool) :
    resumed item progress done [] = repeated item progress done := by
  simp only [resumed, List.nil_append]
  exact bind_pure _

theorem resumed_done {item : Reader α} (progress : Shortens item) {done : List Lexeme → Bool}
    (found : List α) {rest : List Lexeme} (hDone : done rest = true) :
    resumed item progress done found rest = .ok (found, rest) := by
  rw [resumed, bind_of_ok (repeated_done progress hDone), List.append_nil]
  rfl

theorem resumed_step {item : Reader α} (progress : Shortens item) {done : List Lexeme → Bool}
    (found : List α) {rest : List Lexeme} (hDone : done rest = false) :
    resumed item progress done found rest =
      (item >>= fun value => resumed item progress done (found ++ [value])) rest := by
  rw [resumed, bind_congr_at (repeated_eq progress hDone)]
  simp only [resumed, bind_assoc, pure_bind, List.append_assoc, List.singleton_append]

end Grammar

/-- The steps end as a reader did that was given `rest`: behind what it took, or with the syntax
error of its mismatch. -/
inductive Settles (steps : Steps α) (cursor : Cursor) (rest : List Lexeme) (final : Lexeme) :
    Except Mismatch (α × List Lexeme) → Prop
  | ok {value : α} {front behind : List Lexeme} (hRest : rest = front ++ behind)
      (h : steps.Returns cursor value (cursor.passing front.length)) :
      Settles steps cursor rest final (.ok (value, behind))
  | error {mismatch : Mismatch} (h : steps.Halts cursor (.refused (mismatch.report final))) :
      Settles steps cursor rest final (.error mismatch)

/-- At a depth, the steps end as the reader does. -/
def Follows (depth : Nat) (steps : Steps α) (reader : Reader α) : Prop :=
  ∀ ⦃cursor rest final⦄, cursor.Faces rest final → cursor.depth = depth →
    Settles steps cursor rest final (reader rest)

namespace Settles

variable {steps : Steps α} {next : α → Steps β} {reader : Reader α} {continued : α → Reader β}

theorem value {value : α} (h : steps.Returns cursor value cursor) :
    Settles steps cursor rest final (.ok (value, rest)) :=
  .ok (List.nil_append _).symm h

/-- Behind steps that passed some lexemes, the run settles as it goes on. -/
theorem past {value : α} (front : List Lexeme) {behind : List Lexeme}
    {result : Except Mismatch (β × List Lexeme)}
    (h : steps.Returns cursor value (cursor.passing front.length)) (hRest : rest = front ++ behind)
    (hNext : Settles (next value) (cursor.passing front.length) behind final result) :
    Settles (steps >>= next) cursor rest final result := by
  cases hNext with
  | ok hBehind hMore =>
      rw [Cursor.passing_passing, ← List.length_append] at hMore
      refine .ok ?_ (h.bind hMore)
      rw [hRest, hBehind, List.append_assoc]
  | error hMore => exact .error (h.bind_halts hMore)

/-- Steps in sequence settle as their parts do. -/
theorem bind (h : Settles steps cursor rest final (reader rest))
    (hNext : ∀ value front behind, rest = front ++ behind → reader rest = .ok (value, behind) →
      Settles (next value) (cursor.passing front.length) behind final (continued value behind)) :
    Settles (steps >>= next) cursor rest final ((reader >>= continued) rest) := by
  cases hRead : reader rest with
  | error mismatch =>
      rw [hRead] at h
      rw [Grammar.bind_of_error hRead]
      cases h with
      | error hHalts => exact .error hHalts.bind
  | ok pair =>
      obtain ⟨found, behind⟩ := pair
      rw [hRead] at h
      rw [Grammar.bind_of_ok hRead]
      cases h with
      | ok hFront hReturns => exact past _ hReturns hFront (hNext found _ behind hFront hRead)

/-- Behind steps that stay where they are, the run settles as it goes on there. -/
theorem stay {value : α} {result : Except Mismatch (β × List Lexeme)}
    (h : steps.Returns cursor value cursor)
    (hNext : Settles (next value) cursor rest final result) :
    Settles (steps >>= next) cursor rest final result :=
  past [] h rfl hNext

/-- Behind steps that take a lexeme, the run settles as it goes on with the others. -/
theorem step {value : α} {result : Except Mismatch (β × List Lexeme)}
    (h : steps.Returns cursor value (cursor.passing 1))
    (hNext : Settles (next value) (cursor.passing 1) rest final result) :
    Settles (steps >>= next) cursor (lexeme :: rest) final result :=
  past [lexeme] h rfl hNext

/-- Steps that look at the lexeme at the cursor settle as they do with what is there. -/
theorem look {next : Lexeme → Steps α} {result : Except Mismatch (α × List Lexeme)}
    (hFaces : cursor.Faces rest final)
    (h : Settles (next (rest.headD final)) cursor rest final result) :
    Settles (Cursor.current >>= next) cursor rest final result :=
  stay (current_returns hFaces) h

/-- Steps that take a lexeme go on with the lexemes behind it. -/
theorem take {next : Lexeme → Steps α} {result : Except Mismatch (α × List Lexeme)}
    (hFaces : cursor.Faces (lexeme :: rest) final)
    (h : Settles (next lexeme) (cursor.passing 1) rest final result) :
    Settles (Cursor.advance >>= next) cursor (lexeme :: rest) final result :=
  step (advance_returns hFaces) h

/-- A lexeme that does not fit is refused. -/
theorem unexpected (hFaces : cursor.Faces rest final) (expected : List Expectation) :
    Settles (Cursor.unexpected expected : Steps α) cursor rest final (.error ⟨expected, rest⟩) :=
  .look hFaces (.error rfl)

end Settles

/-! ### Steps that follow readers -/

namespace Follows

variable {depth : Nat} {steps present absent : Steps α} {next : α → Steps β}
variable {reader ifPresent ifAbsent : Reader α} {continued : α → Reader β}

/-- Steps in sequence follow readers in sequence. -/
theorem bind (h : Follows depth steps reader)
    (hNext : ∀ value, Follows depth (next value) (continued value)) :
    Follows depth (steps >>= next) (reader >>= continued) := by
  intro cursor rest final hFaces hDepth
  refine (h hFaces hDepth).bind fun value front behind hRest _ => ?_
  subst hRest
  exact hNext value hFaces.passing hDepth

theorem pure (value : α) : Follows depth (pure value) (pure value) :=
  fun _ _ _ _ _ => .value (Steps.returns_pure _ _)

theorem one {select : Lexeme → Option α} {expected : List Expectation}
    (hEnd : ∀ lexeme : Lexeme, lexeme.isEnd = true → select lexeme = none) :
    Follows depth (Cursor.one select expected) (Grammar.one select expected) := by
  intro cursor rest final hFaces hDepth
  refine .look hFaces ?_
  cases rest with
  | nil =>
      rw [List.headD_nil, hEnd final hFaces.final]
      exact .unexpected hFaces _
  | cons lexeme others =>
      rw [List.headD_cons, Grammar.one]
      cases select lexeme with
      | some value => exact .take hFaces (.value (Steps.returns_pure _ _))
      | none => exact .unexpected hFaces _

theorem symbol (sign : Symbol) :
    Follows depth (Cursor.symbol sign) (Grammar.symbol sign) :=
  one fun lexeme hEnd => by simp_all [Lexeme.isEnd]

theorem keyword (word : Keyword) :
    Follows depth (Cursor.keyword word) (Grammar.keyword word) :=
  one fun lexeme hEnd => by simp_all [Lexeme.isEnd]

theorem identifier : Follows depth Cursor.identifier Grammar.identifier :=
  one fun lexeme hEnd => by simp_all [Lexeme.isEnd]

theorem integer : Follows depth Cursor.integer Grammar.integer :=
  one fun lexeme hEnd => by simp_all [Lexeme.isEnd]

theorem string : Follows depth Cursor.string Grammar.string :=
  one fun lexeme hEnd => by simp_all [Lexeme.isEnd]

theorem endedBy (sign : Symbol) (h : Follows depth steps reader) :
    Follows depth
      (do
        let value ← steps
        Cursor.symbol sign
        return value)
      (Grammar.endedBy sign reader) :=
  h.bind fun _ => (symbol sign).bind fun _ => .pure _

/-- A symbol that is taken if it comes next decides how steps go on. -/
theorem ifNext (sign : Symbol) (hPresent : Follows depth present ifPresent)
    (hAbsent : Follows depth absent ifAbsent) :
    Follows depth
      (do
        if ← Cursor.consume sign then present
        else absent)
      (Grammar.ifNext sign ifPresent ifAbsent) := by
  intro cursor rest final hFaces hDepth
  cases hAccept : Grammar.accept? sign rest with
  | some behind =>
      obtain ⟨lexeme, rfl, hToken⟩ := Grammar.accept?_eq_some hAccept
      simp only [Grammar.ifNext, hAccept]
      exact .step (consume_returns_true hFaces hToken) (hPresent hFaces.behind hDepth)
  | none =>
      simp only [Grammar.ifNext, hAccept]
      exact .stay (consume_returns_false hFaces hAccept) (hAbsent hFaces hDepth)

/-- A symbol that comes next decides how steps go on, and is left. -/
theorem ifAhead (sign : Symbol) (hPresent : Follows depth present ifPresent)
    (hAbsent : Follows depth absent ifAbsent) :
    Follows depth
      (do
        if ← Cursor.check sign then present
        else absent)
      (Grammar.ifAhead sign ifPresent ifAbsent) := by
  intro cursor rest final hFaces hDepth
  have hCheck := check_returns sign hFaces
  cases hAccept : Grammar.accept? sign rest with
  | some behind =>
      rw [hAccept] at hCheck
      simp only [Grammar.ifAhead, hAccept]
      exact .stay hCheck (hPresent hFaces hDepth)
  | none =>
      rw [hAccept] at hCheck
      simp only [Grammar.ifAhead, hAccept]
      exact .stay hCheck (hAbsent hFaces hDepth)

/-- A list that has been begun goes on behind a comma. -/
theorem more {item : Steps α} {readItem : Reader α} (progress : Shortens readItem)
    (h : Follows depth item readItem) (found : List α) :
    Follows depth (item.more found) (Grammar.continued readItem progress found) := by
  intro cursor rest final hFaces hDepth
  -- an item may take any number of lexemes; with its comma it takes at least one
  induction hLength : rest.length using Nat.strongRecOn generalizing cursor rest found with
  | ind length ih =>
      subst hLength
      rw [Steps.more]
      cases hAccept : Grammar.accept? .comma rest with
      | none =>
          simp only [Grammar.continued, Grammar.ifNext, hAccept]
          exact .stay (consume_returns_false hFaces hAccept) (.value (Steps.returns_pure _ _))
      | some behind =>
          obtain ⟨comma, rfl, hComma⟩ := Grammar.accept?_eq_some hAccept
          rw [Grammar.continued_cons progress found hComma]
          refine .step (consume_returns_true hFaces hComma) ?_
          refine (h hFaces.behind hDepth).bind fun value front others hOthers _ => ?_
          subst hOthers
          have hShorter : others.length < (comma :: (front ++ others)).length := by
            rw [List.length_cons, List.length_append]
            omega
          exact ih _ hShorter _ hFaces.behind.passing hDepth rfl

/-- Items are repeated up to the same lexeme. -/
theorem loop {item : Steps α} {readItem : Reader α} (progress : Shortens readItem)
    {done : Lexeme → Bool} {isDone : List Lexeme → Bool}
    (hDone : ∀ {cursor : Cursor} {rest final}, cursor.Faces rest final →
      done (rest.headD final) = isDone rest)
    (h : Follows depth item readItem) (found : List α) :
    Follows depth (item.loop done found)
      (Grammar.resumed readItem progress isDone found) := by
  intro cursor rest final hFaces hDepth
  induction hLength : rest.length using Nat.strongRecOn generalizing cursor rest found with
  | ind length ih =>
      subst hLength
      rw [Steps.loop]
      refine .look hFaces ?_
      rw [hDone hFaces]
      cases hRest : isDone rest with
      | true =>
          rw [Grammar.resumed_done progress found hRest]
          exact .value (Steps.returns_pure _ _)
      | false =>
          rw [Grammar.resumed_step progress found hRest]
          refine (h hFaces hDepth).bind fun value front behind hFront hRead => ?_
          have hShorter := progress _ _ _ hRead
          subst hFront
          exact ih _ hShorter _ hFaces.passing hDepth rfl

/-- From the beginning, a row of items is a repeated reader. -/
theorem repeated {item : Steps α} {readItem : Reader α} (progress : Shortens readItem)
    {done : Lexeme → Bool} {isDone : List Lexeme → Bool}
    (hDone : ∀ {cursor : Cursor} {rest final}, cursor.Faces rest final →
      done (rest.headD final) = isDone rest)
    (h : Follows depth item readItem) :
    Follows depth (item.loop done []) (Grammar.repeated readItem progress isDone) := by
  have hLoop := h.loop progress hDone []
  rwa [Grammar.resumed_nil] at hLoop

theorem list {item : Steps α} {readItem : Reader α} (progress : Shortens readItem)
    (h : Follows depth item readItem) :
    Follows depth item.list (Grammar.separated readItem progress) := by
  have hList := h.bind fun value => h.more progress [value]
  rwa [← Grammar.separated_eq_continued] at hList

/-- Steps within an expression follow a reader one level deeper. -/
theorem within (h : Follows (depth + 1) steps reader) (hDepth : depth < nestingLimit) :
    Follows depth
      (do
        Cursor.enter
        let value ← steps
        Cursor.leave
        return value)
      reader := by
  intro cursor rest final hFaces hAt
  have hEnter : Cursor.enter.Returns cursor () cursor.deeper := enter_returns (hAt ▸ hDepth)
  have hInner := h hFaces.deeper (congrArg (· + 1) hAt)
  generalize reader rest = result at hInner ⊢
  -- only an expression that is taken is left again; a refusal ends the run where it is
  cases hInner with
  | @ok value front behind hRest hInside =>
      have hLeave := leave_returns (cursor.passing front.length)
      exact .ok hRest
        (hEnter.bind (hInside.bind (hLeave.bind (Steps.returns_pure value _))))
  | error hInside => exact .error (hEnter.bind_halts hInside.bind)

/-- Below the last level no expression begins. -/
theorem tooDeep (next : Unit → Steps α) (hDepth : nestingLimit ≤ depth) :
    Follows depth (Cursor.enter >>= next) (Grammar.expecting [.shallowerNesting]) := by
  intro cursor rest final hFaces hAt
  have hEnter : Cursor.enter.Halts cursor
      (.refused (Mismatch.report ⟨[.shallowerNesting], rest⟩ final)) := by
    refine (Steps.returns_get cursor).bind_halts ?_
    rw [if_pos (hAt ▸ hDepth)]
    exact (current_returns hFaces).bind_halts rfl
  exact .error hEnter.bind

end Follows

end QuantumCircuit
