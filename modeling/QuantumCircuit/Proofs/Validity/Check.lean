import Mathlib.Data.List.Nodup
import QuantumCircuit.Proofs.Answers
import QuantumCircuit.Proofs.Validity.Rules

/-!
# The checker decides the rules

The checker works with a scope that grows from statement to statement.  `Context.scope` is the
scope that it has reached behind some statements, and `Context.Shows` says that this scope shows
what they declare.  Each check then has one lemma that says when it passes, and
`Context.checkAll_eq_ok` says when a whole run passes and where it ends.
-/

namespace QuantumCircuit

@[simp]
theorem reject_ne_ok {α : Type} (violation : Violation) (position : Position) (value : α) :
    reject violation position ≠ .ok value := by
  simp [reject]

/-! ### Checks in a scope -/

namespace Scope

/-- The reference means a visible register of a kind and a size, and an element in range. -/
structure Resolves (scope : Scope) (kind : RegisterKind) (reference : RegisterRef)
    (size : UInt64) : Prop where
  register : scope.register? reference.register = some ⟨kind, size⟩
  range : ∀ index, reference.index = some index → index < size

/-- The called gate is visible and takes as many parameters and qubits as are given. -/
def Takes (scope : Scope) (call : GateCall) : Prop :=
  ∃ signature, scope.gate? call.name = some signature ∧
    call.params.length = signature.params ∧ call.qubits.length = signature.qubits

/-- The whole registers among the references are quantum registers of one size, which is the
expected one if there is any. -/
def SizesAgree (scope : Scope) (expected : Option UInt64) (references : List RegisterRef) : Prop :=
  ∃ size, (∀ other ∈ expected, other = size) ∧
    ∀ reference ∈ references, reference.index = none → scope.Resolves .quantum reference size

variable {scope : Scope}

theorem Resolves.size_eq {kind : RegisterKind} {reference : RegisterRef} {size other : UInt64}
    (h : scope.Resolves kind reference size) (hOther : scope.Resolves kind reference other) :
    size = other := by
  have hShape := h.register.symm.trans hOther.register
  cases hShape
  rfl

theorem checkSignature_eq_ok {call : GateCall} :
    scope.checkSignature call = .ok () ↔ scope.Takes call := by
  rw [checkSignature, Takes]
  cases hGate : scope.gate? call.name with
  | none => simp
  | some signature =>
      simp only [Option.some.injEq, exists_eq_left']
      split
      · rename_i hCounts
        simp only [reject_ne_ok, false_iff, not_and]
        omega
      · rename_i hCounts
        simp only [true_iff]
        omega

theorem checkReference_eq_ok {kind : RegisterKind} {reference : RegisterRef} {size : UInt64} :
    scope.checkReference kind reference = .ok size ↔ scope.Resolves kind reference size := by
  constructor
  · intro hCheck
    rw [checkReference] at hCheck
    cases hShape : scope.register? reference.register with
    | none => simp [hShape] at hCheck
    | some shape =>
        simp only [hShape] at hCheck
        split at hCheck
        · simp at hCheck
        rename_i hKind
        rw [not_not] at hKind
        subst hKind
        split at hCheck
        · rename_i hWhole
          cases hCheck
          exact ⟨hShape, fun index hIndex => by rw [hWhole] at hIndex; cases hIndex⟩
        · rename_i index hElement
          split at hCheck
          · rename_i hRange
            cases hCheck
            refine ⟨hShape, fun other hOther => ?_⟩
            rw [hElement] at hOther
            cases hOther
            exact hRange
          · simp at hCheck
  · rintro ⟨hShape, hRange⟩
    rw [checkReference, hShape]
    cases hIndex : reference.index with
    | none => simp
    | some index => simp [hRange index hIndex]

/-! What the size of the whole registers in front means for the next argument. -/

theorem sizesAgree_nil (expected : Option UInt64) : scope.SizesAgree expected [] := by
  cases expected with
  | none => exact ⟨0, by simp, by simp⟩
  | some size => exact ⟨size, by simp, by simp⟩

/-- An element says nothing about sizes. -/
theorem sizesAgree_element {expected : Option UInt64} {reference : RegisterRef}
    {references : List RegisterRef} (h : reference.index ≠ none) :
    scope.SizesAgree expected (reference :: references) ↔ scope.SizesAgree expected references := by
  simp only [SizesAgree, List.forall_mem_cons, h, false_implies, true_and]

/-- A whole register sets the size for those behind it. -/
theorem sizesAgree_whole {expected : Option UInt64} {reference : RegisterRef} {size : UInt64}
    {references : List RegisterRef} (h : reference.index = none)
    (hSize : scope.Resolves .quantum reference size) :
    scope.SizesAgree expected (reference :: references) ↔
      (∀ other ∈ expected, other = size) ∧ scope.SizesAgree (some size) references := by
  simp only [SizesAgree, List.forall_mem_cons, h, true_implies]
  constructor
  · rintro ⟨other, hExpected, hOther, hRest⟩
    obtain rfl := hSize.size_eq hOther
    exact ⟨hExpected, size, by simp, hRest⟩
  · rintro ⟨hExpected, other, hSame, hRest⟩
    obtain rfl := hSame size rfl
    exact ⟨size, hExpected, hSize, hRest⟩

/-- Arguments are good one by one, and their whole registers have the size of those in front. -/
theorem checkArguments_eq_ok {position : Position} {first : Option (String × UInt64)}
    {references : List RegisterRef} :
    scope.checkArguments position first references = .ok () ↔
      (∀ reference ∈ references, ∃ size, scope.Resolves .quantum reference size) ∧
        scope.SizesAgree (first.map Prod.snd) references := by
  induction references generalizing first with
  | nil => simp [checkArguments, sizesAgree_nil]
  | cons argument rest ih =>
      rw [checkArguments, except_bind_eq_ok, List.forall_mem_cons]
      simp only [checkReference_eq_ok]
      cases hIndex : argument.index with
      | some index =>
          have hElement : argument.index ≠ none := by simp [hIndex]
          simp only [Option.isSome_some, if_true, ih, sizesAgree_element hElement,
            exists_and_right, and_assoc]
      | none =>
          simp only [Option.isSome_none, Bool.false_eq_true, if_false]
          rw [and_assoc, ← exists_and_right]
          apply exists_congr
          intro size
          apply and_congr_right
          intro hSize
          rw [sizesAgree_whole hIndex hSize]
          cases first with
          | none => simp [ih]
          | some entry =>
              obtain ⟨name, expected⟩ := entry
              by_cases hSame : expected = size
              · subst hSame
                simp [ih]
              · simp [hSame]

end Scope

/-! ### Scopes -/

/-- In a table of different names a name is looked up as its only entry. -/
theorem lookup_eq_some_iff_mem {α : Type} {entries : List (String × α)}
    (h : (entries.map Prod.fst).Nodup) {name : String} {value : α} :
    entries.lookup name = some value ↔ (name, value) ∈ entries := by
  induction entries with
  | nil => simp
  | cons entry rest ih =>
      obtain ⟨other, found⟩ := entry
      rw [List.map_cons, List.nodup_cons] at h
      obtain ⟨hNew, hRest⟩ := h
      rw [List.lookup_cons, List.mem_cons]
      by_cases hName : name = other
      · subst hName
        have hOnly : (name, value) ∉ rest := by
          intro hMember
          exact hNew (List.mem_map.mpr ⟨_, hMember, rfl⟩)
        simp [hOnly, eq_comm]
      · have hBeq : (name == other) = false := by simpa using hName
        rw [hBeq, ih hRest]
        simp [hName]

/-- A table of different gates shows the declared ones. -/
theorem declaredTable_gate? {statements : List Statement}
    (h : ((declaredGates statements).map Prod.fst).Nodup) {name : String}
    {signature : GateSignature} :
    (declaredTable statements).gate? name = some signature ↔
      (name, signature) ∈ declaredGates statements := by
  -- the table keeps its latest entry in front, the reverse of the order of the statements
  rw [SymbolTable.gate?, declaredTable,
    lookup_eq_some_iff_mem (by rwa [List.map_reverse, List.nodup_reverse]), List.mem_reverse]

/-- A table of different registers shows the declared ones. -/
theorem declaredTable_register? {statements : List Statement}
    (h : ((declaredRegisters statements).map Prod.fst).Nodup) {name : String}
    {shape : RegisterShape} :
    (declaredTable statements).register? name = some shape ↔
      (name, shape) ∈ declaredRegisters statements := by
  rw [SymbolTable.register?, declaredTable,
    lookup_eq_some_iff_mem (by rwa [List.map_reverse, List.nodup_reverse]), List.mem_reverse]

namespace Context

variable {context : Context}

/-- The scope behind the statements in front. -/
def scope (context : Context) : Scope := ⟨context.library, declaredTable context.before⟩

/-- One statement more stands in front. -/
def push (context : Context) (statement : Statement) : Context :=
  ⟨context.library, context.before ++ [statement]⟩

/-- The scope shows what is declared in the library and in front. -/
structure Shows (context : Context) : Prop where
  gate : ∀ name signature,
    context.scope.gate? name = some signature ↔ context.HasGate name signature
  register : ∀ name shape,
    context.scope.register? name = some shape ↔ context.HasRegister name shape

/-- Different names can be looked up in any order. -/
theorem Distinct.shows (h : context.Distinct)
    (hLibrary : ∀ table, context.library = some table → table.registers = []) :
    context.Shows := by
  obtain ⟨hGates, hForeign, hRegisters⟩ := h
  have hOwnGate (name : String) (signature : GateSignature) :
      context.scope.own.gate? name = some signature ↔
        (name, signature) ∈ declaredGates context.before := declaredTable_gate? hGates
  have hOwnRegister (name : String) (shape : RegisterShape) :
      context.scope.own.register? name = some shape ↔
        (name, shape) ∈ declaredRegisters context.before := declaredTable_register? hRegisters
  constructor
  · intro name signature
    have hHere := hOwnGate name
    rw [Scope.gate?, HasGate]
    cases hOwn : context.scope.own.gate? name with
    | none =>
        -- the library is only asked for what the statements in front do not declare
        have hNone : (name, signature) ∉ declaredGates context.before := by
          rw [← hHere, hOwn]
          simp
        simp only [hNone, or_false, Option.bind_eq_some_iff]
        rfl
    | some found =>
        have hFound := (hHere found).mp hOwn
        have hSame := hHere signature
        rw [hOwn] at hSame
        simp only [hSame, iff_or_self]
        -- an own gate hides no gate of the library, which has none of this name
        rintro ⟨table, hTable, hSignature⟩
        have hNone := hForeign table hTable name (List.mem_map_of_mem hFound)
        rw [hNone] at hSignature
        cases hSignature
  · intro name shape
    rw [Scope.register?, HasRegister, ← hOwnRegister]
    cases hOwn : context.scope.own.register? name with
    | some found => rfl
    | none =>
        have hOutside : (context.library.bind fun table => table.register? name) = none := by
          rw [Option.bind_eq_none_iff]
          intro table hTable
          rw [SymbolTable.register?, hLibrary table hTable]
          rfl
        show (context.library.bind fun table => table.register? name) = some shape ↔ _
        rw [hOutside]

namespace Shows

variable (h : context.Shows)

include h

theorem gate_isSome (name : String) :
    (context.scope.gate? name).isSome = true ↔ ∃ signature, context.HasGate name signature := by
  rw [Option.isSome_iff_exists]
  exact exists_congr (h.gate name)

theorem register_isSome (name : String) :
    (context.scope.register? name).isSome = true ↔ ∃ shape, context.HasRegister name shape := by
  rw [Option.isSome_iff_exists]
  exact exists_congr (h.register name)

/-! ### Calls and references -/

theorem takes_iff_knows {call : GateCall} : context.scope.Takes call ↔ context.Knows call := by
  simp only [Scope.Takes, Knows, h.gate]

theorem resolves_iff_refers {kind : RegisterKind} {reference : RegisterRef} {size : UInt64} :
    context.scope.Resolves kind reference size ↔ context.Refers kind reference size := by
  constructor
  · rintro ⟨hRegister, hRange⟩
    exact ⟨(h.register _ _).mp hRegister, hRange⟩
  · rintro ⟨hRegister, hRange⟩
    exact ⟨(h.register _ _).mpr hRegister, hRange⟩

theorem checkReference_eq_ok {kind : RegisterKind} {reference : RegisterRef} {size : UInt64} :
    context.scope.checkReference kind reference = .ok size ↔
      context.Refers kind reference size :=
  Scope.checkReference_eq_ok.trans h.resolves_iff_refers

end Shows

end Context

/-- References share an element exactly if they are found to overlap. -/
theorem RegisterRef.overlaps_iff_meets {first second : RegisterRef} :
    first.overlaps second = true ↔ first.Meets second := by
  simp only [RegisterRef.overlaps, RegisterRef.Meets, RegisterRef.Means, Bool.and_eq_true,
    Bool.or_eq_true, decide_eq_true_eq, Option.isNone_iff_eq_none]
  apply and_congr_right
  intro _
  cases hFirst : first.index with
  | none =>
      cases hSecond : second.index with
      | none => simp
      | some element => simp
  | some element =>
      cases hSecond : second.index with
      | none => simp
      | some other => simp [eq_comm]

theorem RegisterRef.Meets.symm {first second : RegisterRef} (h : first.Meets second) :
    second.Meets first := by
  obtain ⟨hRegister, element, hFirst, hSecond⟩ := h
  exact ⟨hRegister.symm, element, hSecond, hFirst⟩

theorem checkOverlap_eq_ok {earlier references : List RegisterRef} :
    checkOverlap earlier references = .ok () ↔
      (∀ first ∈ earlier, ∀ second ∈ references, ¬ first.Meets second) ∧
        references.Pairwise fun first second => ¬ first.Meets second := by
  -- an argument that passes is among the earlier ones for the rest
  induction references generalizing earlier with
  | nil => simp [checkOverlap]
  | cons later rest ih =>
      rw [checkOverlap]
      cases hFind : earlier.find? fun argument => argument.overlaps later with
      | some argument =>
          have hMember := List.mem_of_find?_eq_some hFind
          have hOverlaps : argument.overlaps later = true := by
            simpa using List.find?_some hFind
          have hMeets := RegisterRef.overlaps_iff_meets.mp hOverlaps
          simp only [reject_ne_ok, false_iff, not_and]
          intro hApart
          exact absurd hMeets (hApart argument hMember later (List.mem_cons_self ..))
      | none =>
          have hApart : ∀ first ∈ earlier, ¬ first.Meets later := by
            intro first hFirst hMeets
            have hOverlap := List.find?_eq_none.mp hFind first hFirst
            exact hOverlap (RegisterRef.overlaps_iff_meets.mpr hMeets)
          simp only [ih, List.forall_mem_append, List.forall_mem_singleton, List.forall_mem_cons,
            List.pairwise_cons, and_assoc]
          constructor
          · rintro ⟨hEarlier, hLater, hRest⟩
            exact ⟨fun first hFirst => ⟨hApart first hFirst, hEarlier first hFirst⟩, hLater, hRest⟩
          · rintro ⟨hEarlier, hLater, hRest⟩
            exact ⟨fun first hFirst => (hEarlier first hFirst).2, hLater, hRest⟩

/-- Arguments pass exactly if no two of them meet. -/
theorem checkOverlap_eq_ok_iff_pairwise {references : List RegisterRef} :
    checkOverlap [] references = .ok () ↔
      references.Pairwise fun first second => ¬ first.Meets second := by
  rw [checkOverlap_eq_ok]
  exact and_iff_right (List.forall_mem_nil _)

theorem firstRepeated?_eq_none {seen names : List String} :
    firstRepeated? seen names = none ↔ names.Nodup ∧ ∀ name ∈ names, name ∉ seen := by
  induction names generalizing seen with
  | nil => simp [firstRepeated?]
  | cons name rest ih =>
      rw [firstRepeated?, List.nodup_cons, List.forall_mem_cons]
      split
      · rename_i hSeen
        simp [hSeen]
      · rename_i hNew
        simp only [ih, List.mem_cons, not_or, hNew, not_false_eq_true, true_and]
        constructor
        · rintro ⟨hRest, hOthers⟩
          exact ⟨⟨fun hMember => (hOthers name hMember).1 rfl, hRest⟩,
            fun other hOther => (hOthers other hOther).2⟩
        · rintro ⟨⟨hName, hRest⟩, hOthers⟩
          refine ⟨hRest, fun other hOther => ⟨?_, hOthers other hOther⟩⟩
          rintro rfl
          exact hName hOther

theorem checkFormals_eq_ok {header : GateHeader} {position : Position} :
    checkFormals header position = .ok () ↔ header.Lawful := by
  have hNone : firstRepeated? [] (header.params ++ header.qubits) = none ↔ header.Lawful := by
    rw [firstRepeated?_eq_none, GateHeader.Lawful]
    simp
  rw [checkFormals, ← hNone]
  cases firstRepeated? [] (header.params ++ header.qubits) <;> simp

theorem checkFormalQubits_eq_ok {formals : List String} {references : List RegisterRef} :
    checkFormalQubits formals references = .ok () ↔
      ∀ reference ∈ references, reference.index = none ∧ reference.register ∈ formals := by
  induction references with
  | nil => simp [checkFormalQubits]
  | cons argument rest ih =>
      rw [checkFormalQubits, List.forall_mem_cons]
      split
      · rename_i hIndex
        rw [Option.isSome_iff_ne_none] at hIndex
        simp [hIndex]
      · rename_i hIndex
        rw [Option.not_isSome_iff_eq_none] at hIndex
        split
        · rename_i hFormal
          simp [ih, hIndex, hFormal]
        · rename_i hForeign
          simp [hForeign]

/-- References without an index meet exactly if they have the same register. -/
theorem pairwise_meets_iff_nodup {references : List RegisterRef}
    (h : ∀ reference ∈ references, reference.index = none) :
    (references.Pairwise fun first second => ¬ first.Meets second) ↔
      (references.map RegisterRef.register).Nodup := by
  rw [List.Nodup, List.pairwise_map]
  apply List.Pairwise.iff_of_mem
  intro first second hFirst hSecond
  rw [not_iff_not]
  constructor
  · exact And.left
  · intro hRegister
    refine ⟨hRegister, 0, ?_, ?_⟩
    · simp [RegisterRef.Means, h first hFirst]
    · simp [RegisterRef.Means, h second hSecond]

/-! ### Calls -/

theorem head?_identifiers_eq_none {params : List Expr} :
    (params.flatMap Expr.identifiers).head? = none ↔ ∀ e ∈ params, e.names = [] := by
  rw [List.head?_eq_none_iff, List.flatMap_eq_nil_iff]
  apply forall₂_congr
  intro e _
  simp only [List.eq_nil_iff_forall_not_mem, Expr.mem_identifiers]

theorem find?_identifiers_eq_none {params : List Expr} {formals : List String} :
    ((params.flatMap Expr.identifiers).find? fun name => name ∉ formals) = none ↔
      ∀ e ∈ params, ∀ name ∈ e.names, name ∈ formals := by
  simp only [List.find?_eq_none, decide_eq_true_eq, not_not, List.mem_flatMap,
    Expr.mem_identifiers]
  constructor
  · intro hFormals e he name hName
    exact hFormals name ⟨e, he, hName⟩
  · rintro hFormals name ⟨e, he, hName⟩
    exact hFormals e he name hName

/-- A call outside gate bodies passes exactly if none of its rules is broken. -/
theorem Scope.checkCall_eq_ok {scope : Scope} {call : GateCall} :
    scope.checkCall call = .ok () ↔
      scope.Takes call ∧ (∀ e ∈ call.params, e.names = []) ∧
        (∀ reference ∈ call.qubits, ∃ size, scope.Resolves .quantum reference size) ∧
        scope.SizesAgree none call.qubits ∧
        call.qubits.Pairwise fun first second => ¬ first.Meets second := by
  rw [checkCall, except_check_eq_ok, checkSignature_eq_ok]
  apply and_congr_right
  intro _
  rw [← head?_identifiers_eq_none]
  cases (call.params.flatMap Expr.identifiers).head? with
  | some name => simp
  | none =>
      rw [except_check_eq_ok, checkArguments_eq_ok, checkOverlap_eq_ok_iff_pairwise, and_assoc]
      simp

namespace Context.Shows

variable {context : Context} (h : context.Shows)

include h

/-- A call outside gate bodies passes exactly if it is lawful. -/
theorem checkCall_eq_ok {call : GateCall} :
    context.scope.checkCall call = .ok () ↔ call.Lawful context := by
  simp only [Scope.checkCall_eq_ok, GateCall.lawful_iff, h.takes_iff_knows, Scope.SizesAgree,
    h.resolves_iff_refers, Option.not_mem_none, false_implies, implies_true, true_and]

/-- So does a call in a gate body. -/
theorem checkBodyCall_eq_ok {header : GateHeader} {call : GateCall} :
    context.scope.checkBodyCall header call = .ok () ↔ call.LawfulWithin context header := by
  rw [Scope.checkBodyCall, except_check_eq_ok, Scope.checkSignature_eq_ok, h.takes_iff_knows]
  constructor
  · rintro ⟨hKnown, hRest⟩
    split at hRest
    · simp at hRest
    rename_i hClosed
    rw [find?_identifiers_eq_none] at hClosed
    rw [except_check_eq_ok] at hRest
    obtain ⟨hQubits, hOverlap⟩ := hRest
    have hFormal := checkFormalQubits_eq_ok.mp hQubits
    have hApart := checkOverlap_eq_ok_iff_pairwise.mp hOverlap
    rw [pairwise_meets_iff_nodup fun reference hReference => (hFormal reference hReference).1]
      at hApart
    exact ⟨hKnown, hClosed, hFormal, hApart⟩
  · rintro ⟨hKnown, hClosed, hFormal, hApart⟩
    rw [← pairwise_meets_iff_nodup fun reference hReference => (hFormal reference hReference).1]
      at hApart
    refine ⟨hKnown, ?_⟩
    rw [find?_identifiers_eq_none.mpr hClosed]
    refine except_check_eq_ok.mpr ⟨checkFormalQubits_eq_ok.mpr hFormal, ?_⟩
    exact checkOverlap_eq_ok_iff_pairwise.mpr hApart

theorem checkBody_eq_ok {header : GateHeader} {calls : List GateCall} :
    context.scope.checkBody header calls = .ok () ↔
      ∀ call ∈ calls, call.LawfulWithin context header := by
  induction calls with
  | nil => simp [Scope.checkBody]
  | cons call rest ih =>
      rw [Scope.checkBody, except_check_eq_ok, h.checkBodyCall_eq_ok, ih, List.forall_mem_cons]

/-! ### Other checks -/

theorem checkHeader_eq_ok {header : GateHeader} {position : Position} :
    context.scope.checkHeader header position = .ok () ↔
      (∀ signature, ¬ context.HasGate header.name signature) ∧ header.Lawful := by
  have hNew := h.gate_isSome header.name
  rw [Scope.checkHeader]
  split
  · rename_i hDeclared
    have hOld : ¬ ∀ signature, ¬ context.HasGate header.name signature := by
      rw [not_forall_not]
      exact hNew.mp hDeclared
    simp only [hOld, false_and, iff_false]
    split <;> simp
  · rename_i hDeclared
    rw [hNew, not_exists] at hDeclared
    simp [hDeclared, checkFormals_eq_ok]

theorem declareRegister_eq_ok {kind : RegisterKind} {name : String} {size : UInt64}
    {position : Position} {next : Scope} :
    context.scope.declareRegister kind name size position = .ok next ↔
      1 ≤ size ∧ (∀ shape, ¬ context.HasRegister name shape) ∧
        next = context.scope.addRegister name ⟨kind, size⟩ := by
  have hNew := h.register_isSome name
  -- the check asks for zero, the rule for one at least
  have hSize : size = 0 ↔ ¬ 1 ≤ size := by
    rw [UInt64.le_iff_toNat_le, ← UInt64.toNat_inj]
    simp
  rw [Scope.declareRegister]
  split
  · rename_i hEmpty
    simp [hSize.mp hEmpty]
  rename_i hFull
  rw [hSize, not_not] at hFull
  rw [Scope.insertRegister?_eq]
  by_cases hDeclared : (context.scope.register? name).isSome = true
  · have hOld : ¬ ∀ shape, ¬ context.HasRegister name shape := by
      rw [not_forall_not]
      exact hNew.mp hDeclared
    simp [hDeclared, hOld]
  · rw [if_neg hDeclared]
    rw [hNew, not_exists] at hDeclared
    simp [hFull, hDeclared, eq_comm]

theorem checkMeasurement_eq_ok {source target : RegisterRef} {position position' : Position} :
    context.scope.checkMeasurement source target position = .ok () ↔
      (Statement.measure source target position').Lawful context := by
  obtain ⟨sourceName, sourceIndex, sourcePosition⟩ := source
  obtain ⟨targetName, targetIndex, targetPosition⟩ := target
  rw [Scope.checkMeasurement, except_bind_eq_ok]
  simp only [except_bind_eq_ok, h.checkReference_eq_ok, Statement.Lawful, RegisterRef.isWhole]
  apply exists_congr
  intro sourceSize
  rw [← exists_and_left]
  apply exists_congr
  intro targetSize
  apply and_congr_right
  intro _
  apply and_congr_right
  intro _
  cases sourceIndex <;> cases targetIndex <;> simp

theorem checkTargets_eq_ok {targets : List RegisterRef} :
    context.scope.checkTargets targets = .ok () ↔
      ∀ target ∈ targets, ∃ size, context.Refers .quantum target size := by
  induction targets with
  | nil => simp [Scope.checkTargets]
  | cons target rest ih =>
      rw [Scope.checkTargets, except_bind_eq_ok, List.forall_mem_cons]
      simp only [h.checkReference_eq_ok, ih, exists_and_right]

theorem checkCondition_eq_ok {name : String} {position : Position} :
    context.scope.checkCondition name position = .ok () ↔
      ∃ size, context.HasRegister name ⟨.classical, size⟩ := by
  rw [Scope.checkCondition]
  simp only [← h.register]
  cases hShape : context.scope.register? name with
  | none => simp
  | some shape =>
      obtain ⟨kind, size⟩ := shape
      cases kind <;> simp

end Context.Shows

theorem checkVersion_eq_ok {isFirst : Bool} {major minor : UInt32} {position : Position} :
    checkVersion isFirst major minor position = .ok () ↔ isFirst = true ∧ major = 2 := by
  rw [checkVersion]
  cases isFirst
  · simp
  · by_cases hMajor : major = 2 <;> simp [hMajor]

/-! ### One statement -/

namespace Context

variable {context : Context} {statement : Statement}

/-- The statement declares no name that is declared already. -/
structure Fresh (context : Context) (statement : Statement) : Prop where
  gate : ∀ name signature, statement.declaredGate? = some (name, signature) →
    ∀ other, ¬ context.HasGate name other
  register : ∀ name shape, statement.declaredRegister? = some (name, shape) →
    ∀ other, ¬ context.HasRegister name other

theorem declaredGates_push :
    declaredGates (context.push statement).before =
      declaredGates context.before ++ statement.declaredGate?.toList := by
  simp only [push, declaredGates, List.filterMap_append]
  cases hGate : statement.declaredGate? <;> simp [hGate]

theorem declaredRegisters_push :
    declaredRegisters (context.push statement).before =
      declaredRegisters context.before ++ statement.declaredRegister?.toList := by
  simp only [push, declaredRegisters, List.filterMap_append]
  cases hRegister : statement.declaredRegister? <;> simp [hRegister]

theorem scope_push_gate {name : String} {signature : GateSignature}
    (hGate : statement.declaredGate? = some (name, signature))
    (hRegister : statement.declaredRegister? = none) :
    (context.push statement).scope = context.scope.addGate name signature := by
  rw [scope, declaredTable, declaredGates_push, declaredRegisters_push, hGate, hRegister]
  simp [push, scope, Scope.addGate, SymbolTable.addGate, declaredTable]

theorem scope_push_register {name : String} {shape : RegisterShape}
    (hGate : statement.declaredGate? = none)
    (hRegister : statement.declaredRegister? = some (name, shape)) :
    (context.push statement).scope = context.scope.addRegister name shape := by
  rw [scope, declaredTable, declaredGates_push, declaredRegisters_push, hGate, hRegister]
  simp [push, scope, Scope.addRegister, SymbolTable.addRegister, declaredTable]

theorem scope_push_other (hGate : statement.declaredGate? = none)
    (hRegister : statement.declaredRegister? = none) :
    (context.push statement).scope = context.scope := by
  rw [scope, declaredTable, declaredGates_push, declaredRegisters_push, hGate, hRegister]
  simp [push, scope, declaredTable]

theorem fresh_of_none (hGate : statement.declaredGate? = none)
    (hRegister : statement.declaredRegister? = none) : context.Fresh statement := by
  constructor
  · intro name signature h
    rw [hGate] at h
    cases h
  · intro name shape h
    rw [hRegister] at h
    cases h

theorem fresh_gate_iff {name : String} {signature : GateSignature}
    (hGate : statement.declaredGate? = some (name, signature))
    (hRegister : statement.declaredRegister? = none) :
    context.Fresh statement ↔ ∀ other, ¬ context.HasGate name other := by
  constructor
  · intro h
    exact h.gate name signature hGate
  · refine fun hNew => ⟨fun found other hFound => ?_, fun found other hFound => ?_⟩
    · rw [hGate] at hFound
      cases hFound
      exact hNew
    · rw [hRegister] at hFound
      cases hFound

theorem fresh_register_iff {name : String} {shape : RegisterShape}
    (hGate : statement.declaredGate? = none)
    (hRegister : statement.declaredRegister? = some (name, shape)) :
    context.Fresh statement ↔ ∀ other, ¬ context.HasRegister name other := by
  constructor
  · intro h
    exact h.register name shape hRegister
  · refine fun hNew => ⟨fun found other hFound => ?_, fun found other hFound => ?_⟩
    · rw [hGate] at hFound
      cases hFound
    · rw [hRegister] at hFound
      cases hFound
      exact hNew

namespace Shows

/-- A statement that declares nothing leaves the scope as it is. -/
theorem unchanged_iff {lawful : Prop} {check : Except Fault Unit} {next : Scope}
    (hGate : statement.declaredGate? = none) (hRegister : statement.declaredRegister? = none)
    (hCheck : check = .ok () ↔ lawful) :
    (check >>= fun _ => pure context.scope) = .ok next ↔
      lawful ∧ context.Fresh statement ∧ next = (context.push statement).scope := by
  rw [except_check_eq_ok, hCheck, scope_push_other hGate hRegister, except_pure_eq_ok]
  simp [fresh_of_none hGate hRegister]

/-- The scope behind a gate whose name is new. -/
theorem declareGate_eq (h : context.Shows) {header : GateHeader}
    (hNew : ∀ signature, ¬ context.HasGate header.name signature) (isOpaque : Bool) :
    context.scope.declareGate header isOpaque =
      context.scope.addGate header.name (header.signature isOpaque) := by
  apply Scope.declareGate_of_new
  rw [← Bool.not_eq_true, h.gate_isSome, not_exists]
  exact hNew

/-- **One statement.**  The check of a statement passes exactly if the statement is lawful and
declares no name again, and it ends in the scope behind the statement. -/
theorem check_eq_ok (h : context.Shows) {next : Scope} :
    context.scope.check context.before.isEmpty statement = .ok next ↔
      statement.Lawful context ∧ context.Fresh statement ∧
        next = (context.push statement).scope := by
  cases statement with
  | version major minor position =>
      refine unchanged_iff rfl rfl ?_
      rw [checkVersion_eq_ok, List.isEmpty_iff, Statement.Lawful]
  | inclusion path position =>
      have hFresh : context.Fresh (.inclusion path position) := fresh_of_none rfl rfl
      rw [scope_push_other rfl rfl]
      simp [Scope.check, Statement.Lawful, hFresh, eq_comm]
  | register kind name size position =>
      rw [scope_push_register rfl rfl, fresh_register_iff rfl rfl]
      exact h.declareRegister_eq_ok
  | gate definition =>
      rw [scope_push_gate rfl rfl, fresh_gate_iff rfl rfl]
      simp only [Scope.check, except_check_eq_ok, h.checkHeader_eq_ok, h.checkBody_eq_ok,
        except_pure_eq_ok, Statement.Lawful, and_assoc]
      constructor
      · rintro ⟨hNew, hHeader, hBody, hNext⟩
        exact ⟨hHeader, hBody, hNew, hNext.trans (h.declareGate_eq hNew false)⟩
      · rintro ⟨hHeader, hBody, hNew, hNext⟩
        exact ⟨hNew, hHeader, hBody, hNext.trans (h.declareGate_eq hNew false).symm⟩
  | opaqueGate header position =>
      rw [scope_push_gate rfl rfl, fresh_gate_iff rfl rfl]
      simp only [Scope.check, except_check_eq_ok, h.checkHeader_eq_ok, except_pure_eq_ok,
        Statement.Lawful, and_assoc]
      constructor
      · rintro ⟨hNew, hHeader, hNext⟩
        exact ⟨hHeader, hNew, hNext.trans (h.declareGate_eq hNew true)⟩
      · rintro ⟨hHeader, hNew, hNext⟩
        exact ⟨hNew, hHeader, hNext.trans (h.declareGate_eq hNew true).symm⟩
  | call application => exact unchanged_iff rfl rfl h.checkCall_eq_ok
  | measure source target position => exact unchanged_iff rfl rfl h.checkMeasurement_eq_ok
  | reset target position =>
      have hFresh : context.Fresh (.reset target position) := fresh_of_none rfl rfl
      rw [scope_push_other rfl rfl]
      simp only [Scope.check, except_bind_eq_ok, h.checkReference_eq_ok, except_pure_eq_ok,
        Statement.Lawful, exists_and_right, hFresh, true_and]
  | barrier targets position => exact unchanged_iff rfl rfl h.checkTargets_eq_ok
  | condition name value application position =>
      have hFresh : context.Fresh (.condition name value application position) :=
        fresh_of_none rfl rfl
      rw [scope_push_other rfl rfl]
      simp only [Scope.check, except_check_eq_ok, h.checkCondition_eq_ok, h.checkCall_eq_ok,
        except_pure_eq_ok, Statement.Lawful, hFresh, true_and, and_assoc]

end Shows

/-! ### Many statements -/

/-- A statement with new names keeps the names different. -/
theorem Distinct.push (h : context.Distinct) (hFresh : context.Fresh statement) :
    (context.push statement).Distinct := by
  obtain ⟨hGates, hForeign, hRegisters⟩ := h
  refine ⟨?_, ?_, ?_⟩
  -- the gates of the program, those of the library, the registers
  · rw [declaredGates_push]
    cases hGate : statement.declaredGate? with
    | none => simpa using hGates
    | some entry =>
        obtain ⟨name, signature⟩ := entry
        have hNew : name ∉ (declaredGates context.before).map Prod.fst := by
          intro hMember
          obtain ⟨⟨found, other⟩, hEntry, rfl⟩ := List.mem_map.mp hMember
          exact hFresh.gate _ _ hGate other (.inr hEntry)
        rw [List.map_append]
        exact hGates.append (List.nodup_singleton name) (List.disjoint_singleton.mpr hNew)
  · intro table hTable name hName
    rw [declaredGates_push, List.map_append, List.mem_append] at hName
    rcases hName with hName | hName
    · exact hForeign table hTable name hName
    · obtain ⟨⟨found, signature⟩, hEntry, rfl⟩ := List.mem_map.mp hName
      rw [Option.mem_toList] at hEntry
      rw [Option.eq_none_iff_forall_ne_some]
      intro other hOther
      exact hFresh.gate _ _ hEntry other (.inl ⟨table, hTable, hOther⟩)
  · rw [declaredRegisters_push]
    cases hRegister : statement.declaredRegister? with
    | none => simpa using hRegisters
    | some entry =>
        obtain ⟨name, shape⟩ := entry
        have hNew : name ∉ (declaredRegisters context.before).map Prod.fst := by
          intro hMember
          obtain ⟨⟨found, other⟩, hEntry, rfl⟩ := List.mem_map.mp hMember
          exact hFresh.register _ _ hRegister other hEntry
        rw [List.map_append]
        exact hRegisters.append (List.nodup_singleton name) (List.disjoint_singleton.mpr hNew)

/-- Different names with those of a statement among them are new at the statement. -/
theorem Distinct.fresh (h : (context.push statement).Distinct) : context.Fresh statement := by
  obtain ⟨hGates, hForeign, hRegisters⟩ := h
  rw [declaredGates_push, List.map_append] at hGates hForeign
  rw [declaredRegisters_push, List.map_append] at hRegisters
  refine ⟨?_, ?_⟩
  · rintro name signature hGate other (⟨table, hTable, hOther⟩ | hOther)
    · have hNone := hForeign table hTable name (by simp [hGate])
      rw [hNone] at hOther
      cases hOther
    · refine List.disjoint_of_nodup_append hGates (List.mem_map.mpr ⟨_, hOther, rfl⟩) ?_
      simp [hGate]
  · intro name shape hRegister other hOther
    refine List.disjoint_of_nodup_append hRegisters (List.mem_map.mpr ⟨_, hOther, rfl⟩) ?_
    simp [hRegister]

/-- Some statements more stand in front. -/
def extend (context : Context) (statements : List Statement) : Context :=
  ⟨context.library, context.before ++ statements⟩

theorem extend_nil : context.extend [] = context := by
  rw [extend, List.append_nil]

theorem extend_cons (rest : List Statement) :
    context.extend (statement :: rest) = (context.push statement).extend rest := by
  simp [extend, push]

theorem Distinct.of_extend {statements : List Statement}
    (h : (context.extend statements).Distinct) : context.Distinct := by
  obtain ⟨hGates, hForeign, hRegisters⟩ := h
  simp only [extend, declaredGates, declaredRegisters, List.filterMap_append, List.map_append]
    at hGates hForeign hRegisters
  refine ⟨hGates.of_append_left, fun table hTable name hName => ?_, hRegisters.of_append_left⟩
  exact hForeign table hTable name (List.mem_append_left _ hName)

/-- Every statement of a list is lawful behind the context and those in front of it. -/
def Follows (context : Context) (statements : List Statement) : Prop :=
  ∀ before statement after, statements = before ++ statement :: after →
    statement.Lawful (context.extend before)

theorem follows_cons {rest : List Statement} :
    context.Follows (statement :: rest) ↔
      statement.Lawful context ∧ (context.push statement).Follows rest := by
  constructor
  · intro h
    constructor
    · have hFirst := h [] statement rest rfl
      rwa [extend_nil] at hFirst
    · intro before other after hRest
      have hOther := h (statement :: before) other after (by rw [hRest, List.cons_append])
      rwa [extend_cons] at hOther
  · rintro ⟨hFirst, hRest⟩ before other after hSplit
    cases before with
    | nil =>
        cases hSplit
        rwa [extend_nil]
    | cons first before =>
        cases hSplit
        rw [extend_cons]
        exact hRest before other after rfl

/-- **A run.**  The check of statements passes exactly if their names differ from each other and
from those in front and each of them is lawful at its place, and it ends in the scope behind
the statements. -/
theorem checkAll_eq_ok {statements : List Statement} {final : Scope} (h : context.Distinct)
    (hLibrary : ∀ table, context.library = some table → table.registers = []) :
    context.scope.checkAll context.before.isEmpty statements = .ok final ↔
      (context.extend statements).Distinct ∧ context.Follows statements ∧
        final = (context.extend statements).scope := by
  induction statements generalizing context with
  | nil =>
      have hNone : context.Follows [] := by
        intro before statement after hSplit
        simp at hSplit
      rw [Scope.checkAll, extend_nil]
      simp [h, hNone, eq_comm]
  | cons statement rest ih =>
      -- behind this statement the scope is that of a longer context, and no statement is first
      have hMore : (context.push statement).before.isEmpty = false := by simp [push]
      rw [Scope.checkAll, except_bind_eq_ok, extend_cons, follows_cons]
      simp only [(h.shows hLibrary).check_eq_ok]
      constructor
      · rintro ⟨next, ⟨hLawful, hFresh, rfl⟩, hRest⟩
        rw [← hMore, ih (h.push hFresh) hLibrary] at hRest
        obtain ⟨hDistinct, hFollows, hFinal⟩ := hRest
        exact ⟨hDistinct, ⟨hLawful, hFollows⟩, hFinal⟩
      · rintro ⟨hDistinct, ⟨hLawful, hFollows⟩, hFinal⟩
        have hPushed := hDistinct.of_extend
        refine ⟨_, ⟨hLawful, hPushed.fresh, rfl⟩, ?_⟩
        rw [← hMore, ih hPushed hLibrary]
        exact ⟨hDistinct, hFollows, hFinal⟩

end Context

/-! ### Programs -/

/-- The run over a program passes exactly if the program is lawful, and it ends in a scope with
what the program declares. -/
theorem Program.checkAll_eq_ok {library : Option SymbolTable}
    (hLibrary : ∀ table, library = some table → table.registers = []) {program : Program}
    {final : Scope} :
    (Scope.initial library).checkAll true program.statements = .ok final ↔
      program.Lawful library ∧ final = ⟨library, declaredTable program.statements⟩ := by
  have hEmpty : Context.Distinct ⟨library, []⟩ := by
    refine ⟨List.nodup_nil, ?_, List.nodup_nil⟩
    intro table hTable name hName
    cases hName
  have hRun := @Context.checkAll_eq_ok _ program.statements final hEmpty hLibrary
  constructor
  · intro hChecked
    obtain ⟨hDistinct, hFollows, rfl⟩ := hRun.mp hChecked
    exact ⟨⟨hDistinct, hFollows⟩, rfl⟩
  · rintro ⟨⟨hDistinct, hStatements⟩, rfl⟩
    exact hRun.mpr ⟨hDistinct, hStatements, rfl⟩

/-- A program passes exactly if it is lawful, and the table has what it declares. -/
theorem Program.check_eq_ok {library : Option SymbolTable}
    (hLibrary : ∀ table, library = some table → table.registers = []) {program : Program}
    {symbols : SymbolTable} :
    program.check library = .ok symbols ↔
      program.Lawful library ∧ symbols = declaredTable program.statements := by
  show ((Scope.initial library).checkAll true program.statements).map Scope.own = _ ↔ _
  cases hChecked : (Scope.initial library).checkAll true program.statements with
  | error fault =>
      have hFails : ¬ program.Lawful library := by
        intro hLawful
        have hPassed := (Program.checkAll_eq_ok hLibrary).mpr ⟨hLawful, rfl⟩
        exact absurd (hChecked.symm.trans hPassed) (by simp)
      simp [Except.map, hFails]
  | ok final =>
      obtain ⟨hLawful, rfl⟩ := (Program.checkAll_eq_ok hLibrary).mp hChecked
      simp only [Except.map, hLawful, true_and, Except.ok.injEq]
      exact eq_comm

end QuantumCircuit
