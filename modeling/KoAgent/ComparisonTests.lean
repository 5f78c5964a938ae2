import KoAgent.PushdownRefinement

/-!
# Comparisons under enclosing negations

The compiler pushes a chain of negations into the operator of a comparison.
`effective` is the operator the chain leaves, and both readings of a negated
comparison, CEL's and the compiler's, go through it. What the resulting
predicates then say is a matter of their encoding: type names as bit masks and
signed numbers as unsigned words.
-/

namespace KoAgent.ComparisonTests

open KoAgent.FilterModel KoAgent.CelExpression KoAgent.FilterCompiler KoAgent.FilterSets
open KoAgent.AtomInterning KoAgent.CompilerShape KoAgent.PushdownMeaning
open KoAgent.PushdownRefinement KoAgent.ReferenceCel
open KoAgent.PredicateMachine hiding cmpField

set_option autoImplicit false

def nots : Nat → Expr → Expr
  | 0, e => e
  | n + 1, e => .call .logicalNot [nots n e]

def negated : Function → Function
  | .equals => .notEquals
  | .notEquals => .equals
  | .less => .greaterEquals
  | .lessEquals => .greater
  | .greater => .lessEquals
  | .greaterEquals => .less
  | function => function

/-- The operator that `n` negations leave of a comparison. -/
def effective : Nat → Function → Function
  | 0, function => function
  | n + 1, function => negated (effective n function)

/-- The truth value that `n` negations leave. -/
def flipped : Nat → Bool → Bool
  | 0, value => value
  | n + 1, value => !flipped n value

theorem flipped_injective (n : Nat) (left right : Bool) :
    flipped n left = flipped n right ↔ left = right := by
  induction n with
  | zero => exact Iff.rfl
  | succ n induction => rw [flipped, flipped, Bool.not_inj_iff, induction]

theorem negated_comparison (function : Function) (comparison : isComparison function = true) :
    isComparison (negated function) = true := by
  cases function with
  | equals | notEquals | less | lessEquals | greater | greaterEquals => rfl
  | _ => cases comparison

theorem effective_comparison (n : Nat) (function : Function)
    (comparison : isComparison function = true) : isComparison (effective n function) = true := by
  induction n with
  | zero => exact comparison
  | succ n induction => exact negated_comparison _ induction

theorem flip_cmp_kind (function : Function) (comparison : isComparison function = true) :
    flipCmp (cmpKind function) = cmpKind (negated function) ∧
      flipCmp (cmpKind (negated function)) = cmpKind function := by
  cases function with
  | equals | notEquals | less | lessEquals | greater | greaterEquals => exact ⟨rfl, rfl⟩
  | _ => cases comparison

/-- The compiler's reading of a negated comparison, by induction over the negations. -/
theorem conj_nots_comparison (n : Nat) (function : Function)
    (comparison : isComparison function = true) (args : List Expr) :
    conj (nots n (.call function args)) = cmpPreds args (cmpKind (effective n function)) ∧
      negConj (nots n (.call function args)) =
        cmpPreds args (flipCmp (cmpKind (effective n function))) := by
  induction n with
  | zero => exact conj_comparison function comparison args
  | succ n induction =>
      obtain ⟨kind, back⟩ := flip_cmp_kind _ (effective_comparison n function comparison)
      obtain ⟨pushed, refused⟩ := induction
      rw [effective, back, ← kind]
      exact ⟨refused, pushed⟩

/-- CEL's reading of a chain of negations. -/
theorem eval_nots (cel : Cel) (lawful : cel.Lawful) (act : Activation) (e : Expr) (n : Nat)
    (value : Bool) (inner : cel.eval e act = .ok (.bool value)) :
    cel.eval (nots n e) act = .ok (.bool (flipped n value)) := by
  induction n with
  | zero => exact inner
  | succ n induction => exact lawful.logicalNot _ _ _ induction

/-- Two readings of `n` negations: none of them counts, or one does. -/
theorem conj_nots_cases (n : Nat) (e : Expr) :
    (conj (nots n e) = conj e ∧ negConj (nots n e) = negConj e ∧
        ∀ value, flipped n value = value) ∨
      (conj (nots n e) = negConj e ∧ negConj (nots n e) = conj e ∧
        ∀ value, flipped n value = !value) := by
  induction n with
  | zero => exact Or.inl ⟨rfl, rfl, fun _ => rfl⟩
  | succ n induction =>
      rcases induction with ⟨pushed, refused, value⟩ | ⟨pushed, refused, value⟩
      · exact Or.inr ⟨refused, pushed, fun truth => by rw [flipped, value]⟩
      · exact Or.inl ⟨refused, pushed, fun truth => by rw [flipped, value, Bool.not_not]⟩

theorem string_compare_negated (function : Function) (compare other : String → String → Bool)
    (left right : String) (comparison : isComparison function = true)
    (found : stringCompare function = some compare)
    (opposite : stringCompare (negated function) = some other) :
    other left right = !compare left right := by
  have notLess : ∀ first second : List Char,
      decide (second ≤ first) = !decide (first < second) := by
    intro first second
    rw [← decide_not, decide_eq_decide]
    exact not_lt.symm
  have notLessEquals : ∀ first second : List Char,
      decide (second < first) = !decide (first ≤ second) := by
    intro first second
    rw [← decide_not, decide_eq_decide]
    exact not_le.symm
  cases function with
  | equals =>
      cases found
      cases opposite
      rfl
  | notEquals =>
      cases found
      cases opposite
      exact (Bool.not_not _).symm
  | less =>
      cases found
      cases opposite
      exact notLess _ _
  | lessEquals =>
      cases found
      cases opposite
      exact notLessEquals _ _
  | greater =>
      cases found
      cases opposite
      exact notLess _ _
  | greaterEquals =>
      cases found
      cases opposite
      exact notLessEquals _ _
  | _ => cases comparison

theorem string_compare_total (function : Function) (comparison : isComparison function = true) :
    ∃ compare, stringCompare function = some compare := by
  cases function with
  | equals | notEquals | less | lessEquals | greater | greaterEquals => exact ⟨_, rfl⟩
  | _ => cases comparison

/-- A negated comparison of strings is the comparison by the effective operator. -/
theorem eval_nots_string (cel : Cel) (lawful : cel.Lawful) (act : Activation) (l r : Expr)
    (left right : String) (first : cel.eval l act = .ok (.string left))
    (second : cel.eval r act = .ok (.string right)) (function : Function)
    (comparison : isComparison function = true) (n : Nat) :
    ∃ compare, stringCompare (effective n function) = some compare ∧
      cel.eval (nots n (.call function [l, r])) act = .ok (.bool (compare left right)) := by
  induction n with
  | zero =>
      obtain ⟨compare, found⟩ := string_compare_total function comparison
      exact ⟨compare, found, lawful.stringCompare function compare l r left right act found first second⟩
  | succ n induction =>
      obtain ⟨compare, found, value⟩ := induction
      have comparable := effective_comparison n function comparison
      obtain ⟨other, opposite⟩ := string_compare_total _ (negated_comparison _ comparable)
      refine ⟨other, opposite, ?_⟩
      rw [string_compare_negated _ compare other left right comparable found opposite]
      exact lawful.logicalNot _ _ _ value

section TypeNames

inductive TypeOperand : Expr → Prop
  | const (name : String) (type : EventType) (known : typeConsts name = some type) :
      TypeOperand (.ident name)
  | text (value : String) : TypeOperand (.literal (.string value))

inductive TypeTest where
  | compare (function : Function) (comparison : isComparison function = true) (operand : Expr)
      (plain : TypeOperand operand)
  | member (operands : List Expr) (plain : ∀ operand ∈ operands, TypeOperand operand)

def TypeTest.expr : TypeTest → Expr
  | .compare function _ operand _ => .call function [.ident "ko_type", operand]
  | .member operands _ => .call .inList [.ident "ko_type", .list operands]

/-- The event type that an operand names. -/
def operandType : Expr → Option EventType
  | .ident name => typeConsts name
  | .literal (.string value) => typesByName value
  | _ => none

/-- Whatever `conj` accepts has CEL's value on every event of the four types. -/
def PushedFaithfully (cel : Cel) (e : Expr) : Prop :=
  ∀ c preds, (conj e c).1 = some preds → ∀ ev, KnownType ev.type → ∀ mask,
    cel.eval e (activation ev) = .ok (.bool (predsHold ev mask preds))

/-- A comparison for equality, one that is refused for its operand, or one that
every type name meets: `retransmit` is the last of them and `conn_closed` the first. -/
def TypeTest.Encoded (n : Nat) : TypeTest → Prop
  | .compare function _ operand _ =>
      effective n function = .equals ∨ effective n function = .notEquals ∨
        operandType operand = none ∨
        (effective n function = .lessEquals ∧ operandType operand = some evtRetransmit) ∨
        (effective n function = .greaterEquals ∧ operandType operand = some evtConnClosed)
  | .member _ _ => True

theorem type_bit_of_operand (operand : Expr) :
    typeBitOf operand = (operandType operand).map typeBit := by
  cases operand with
  | literal value => cases value <;> rfl
  | _ => rfl

theorem type_test_refused (kind : U8) (operand : Expr) (plain : TypeOperand operand)
    (unknown : operandType operand = none) :
    cmpPreds [.ident "ko_type", operand] kind = refuse := by
  funext c
  have bit : typeBitOf operand = none := by rw [type_bit_of_operand, unknown, Option.map_none]
  cases plain with
  | const name type known =>
      rw [operandType, known] at unknown
      cases unknown
  | text value =>
      simp only [cmpPreds, identOf, cmpOperand, bit, literalOf]
      rfl

theorem type_test_pushed (kind : U8) (operand : Expr) (type : EventType)
    (named : operandType operand = some type) (c : Compiler) :
    cmpPreds [.ident "ko_type", operand] kind c = (some (typePreds kind (typeBit type)), c) := by
  have bit : typeBitOf operand = some (typeBit type) := by
    rw [type_bit_of_operand, named, Option.map_some]
  simp only [cmpPreds, identOf, cmpOperand, bit, decide_true]

theorem known_types_forall (Holds : EventType → Prop) :
    (∀ type, KnownType type → Holds type) ↔
      Holds evtConnFailed ∧ Holds evtConnClosed ∧ Holds evtRetransmit ∧ Holds evtProbe := by
  constructor
  · intro all
    exact ⟨all _ (Or.inl rfl), all _ (Or.inr (Or.inl rfl)), all _ (Or.inr (Or.inr (Or.inl rfl))),
      all _ (Or.inr (Or.inr (Or.inr rfl)))⟩
  · rintro ⟨failed, closed, retransmit, probe⟩ type (rfl | rfl | rfl | rfl)
    · exact failed
    · exact closed
    · exact retransmit
    · exact probe

/-- An ordering is pushed down as the empty conjunction, which CEL agrees with
only where all four names are in the order. -/
theorem ordering_always_holds_iff (function : Function) (compare : String → String → Bool)
    (found : stringCompare function = some compare)
    (ordering : function ≠ .equals ∧ function ≠ .notEquals) (type : EventType)
    (known : KnownType type) :
    (∀ other, KnownType other → compare (eventTypeName other) (eventTypeName type) = true) ↔
      (function = .lessEquals ∧ type = evtRetransmit) ∨
        (function = .greaterEquals ∧ type = evtConnClosed) := by
  rw [known_types_forall fun other => compare (eventTypeName other) (eventTypeName type) = true]
  cases function with
  | equals => exact absurd rfl ordering.1
  | notEquals => exact absurd rfl ordering.2
  | less | lessEquals | greater | greaterEquals =>
      cases found
      rcases known with rfl | rfl | rfl | rfl <;> decide
  | _ => cases found

theorem type_pred_holds (ev : Event) (mask : U64) (kind : U8) (bits : U64) :
    predsHold ev mask [{ kind := predCmp, a := fldType, b := kind, val := bits }] =
      PredicateMachine.cmpField kind (eventField fldType ev) bits := by
  simp [predsHold, predHolds]

theorem type_preds_equality (ev : Event) (known : KnownType ev.type) (mask : U64)
    (type : EventType) (listed : KnownType type) :
    predsHold ev mask (typePreds cmpEq (typeBit type)) =
        (eventTypeName ev.type == eventTypeName type) ∧
      predsHold ev mask (typePreds cmpNeq (typeBit type)) =
        (eventTypeName ev.type != eventTypeName type) := by
  have meets : (eventField fldType ev &&& typeBit type != 0) =
      (eventTypeName ev.type == eventTypeName type) := type_bits_meet ev.type type known listed
  refine ⟨(type_pred_holds ev mask cmpIn _).trans meets,
    (type_pred_holds ev mask cmpNotIn _).trans ?_⟩
  rw [bne, ← meets, bne, Bool.not_not]
  rfl

/-- An expression that is always pushed down as `preds` is faithful where these
have its value. -/
theorem pushed_faithfully_iff (cel : Cel) (e : Expr) (preds : List Pred) (value : Event → Bool)
    (pushed : ∀ c, (conj e c).1 = some preds)
    (evaluated : ∀ ev, cel.eval e (activation ev) = .ok (.bool (value ev))) :
    PushedFaithfully cel e ↔
      ∀ ev, KnownType ev.type → ∀ mask, value ev = predsHold ev mask preds := by
  constructor
  · intro all ev known mask
    have agreed := all Compiler.empty preds (pushed _) ev known mask
    rw [evaluated ev] at agreed
    exact Value.bool.inj (Except.ok.inj agreed)
  · intro all c found accepted ev known mask
    rw [pushed] at accepted
    rw [evaluated ev, all ev known mask, Option.some.inj accepted]

theorem ordering_pushed_as_nothing (function : Function) (comparison : isComparison function = true)
    (ordering : function ≠ .equals ∧ function ≠ .notEquals) (bits : U64) :
    typePreds (cmpKind function) bits = [] := by
  cases function with
  | equals => exact absurd rfl ordering.1
  | notEquals => exact absurd rfl ordering.2
  | less | lessEquals | greater | greaterEquals => rfl
  | _ => cases comparison

section Lawful

variable (cel : Cel) (lawful : cel.Lawful)

include lawful

theorem operand_type_spec (ev : Event) (operand : Expr) (type : EventType)
    (named : operandType operand = some type) :
    KnownType type ∧
      cel.eval operand (activation ev) = .ok (.string (eventTypeName type)) := by
  unfold operandType at named
  split at named
  · next name =>
      obtain ⟨known, value⟩ := type_const_activation ev name type named
      exact ⟨known, lawful.ident name _ _ value⟩
  · next name =>
      obtain ⟨known, rfl⟩ := type_name_known name type named
      exact ⟨known, lawful.string _ _⟩
  · cases named

theorem type_name_eval (ev : Event) :
    cel.eval (.ident "ko_type") (activation ev) = .ok (.string (eventTypeName ev.type)) :=
  lawful.ident _ _ _ rfl

theorem type_comparison_iff (n : Nat) (function : Function)
    (comparison : isComparison function = true) (operand : Expr) (type : EventType)
    (named : operandType operand = some type) :
    PushedFaithfully cel (nots n (.call function [.ident "ko_type", operand])) ↔
      effective n function = .equals ∨ effective n function = .notEquals ∨
        (effective n function = .lessEquals ∧ type = evtRetransmit) ∨
        (effective n function = .greaterEquals ∧ type = evtConnClosed) := by
  have listed := (operand_type_spec cel lawful {} operand type named).1
  have comparable := effective_comparison n function comparison
  obtain ⟨compare, found⟩ := string_compare_total _ comparable
  have pushed : ∀ c, (conj (nots n (.call function [.ident "ko_type", operand])) c).1 =
      some (typePreds (cmpKind (effective n function)) (typeBit type)) := by
    intro c
    rw [(conj_nots_comparison n function comparison _).1, type_test_pushed _ operand type named c]
  have value : ∀ ev, cel.eval (nots n (.call function [.ident "ko_type", operand]))
      (activation ev) = .ok (.bool (compare (eventTypeName ev.type) (eventTypeName type))) := by
    intro ev
    obtain ⟨other, same, result⟩ := eval_nots_string cel lawful (activation ev) _ operand _ _
      (type_name_eval cel lawful ev) (operand_type_spec cel lawful ev operand type named).2
      function comparison n
    rw [found] at same
    rw [result, Option.some.inj same]
  -- The conjunct is one mask test or nothing, so the operator decides the case.
  rw [pushed_faithfully_iff cel _ _ _ pushed value]
  by_cases equal : effective n function = .equals
  · rw [equal] at found ⊢
    cases found
    refine ⟨fun _ => Or.inl rfl, fun _ ev known mask => ?_⟩
    exact (type_preds_equality ev known mask type listed).1.symm
  · by_cases unequal : effective n function = .notEquals
    · rw [unequal] at found ⊢
      cases found
      refine ⟨fun _ => Or.inr (Or.inl rfl), fun _ ev known mask => ?_⟩
      exact (type_preds_equality ev known mask type listed).2.symm
    · have order := ordering_always_holds_iff _ compare found ⟨equal, unequal⟩ type listed
      rw [ordering_pushed_as_nothing _ comparable ⟨equal, unequal⟩]
      constructor
      · intro all
        refine Or.inr (Or.inr (order.mp ?_))
        intro other known
        exact all { type := other } known 0
      · rintro (same | same | always)
        · exact absurd same equal
        · exact absurd same unequal
        · intro ev known mask
          exact order.mpr always ev.type known

theorem type_membership_faithful (n : Nat) (operands : List Expr) :
    PushedFaithfully cel (nots n (.call .inList [.ident "ko_type", .list operands])) := by
  cases built : typeMaskOf (.list operands) with
  | none =>
      have pushed : conj (.call .inList [.ident "ko_type", .list operands]) = refuse := by
        funext c
        simp only [conj, inPreds, identOf, if_true, built]
        rfl
      have refused : negConj (.call .inList [.ident "ko_type", .list operands]) = refuse := by
        funext c
        simp only [negConj, negInPreds, identOf, if_true, built]
        rfl
      intro c preds accepted
      rcases conj_nots_cases n (.call .inList [.ident "ko_type", .list operands]) with even | odd
      · rw [even.1, pushed] at accepted
        cases accepted
      · rw [odd.1, refused] at accepted
        cases accepted
  | some mask =>
      have loop : typeMaskLoop 0 operands = some mask := by
        cases operands with
        | nil => cases built
        | cons first rest => exact built
      have pushed : conj (.call .inList [.ident "ko_type", .list operands]) = fun c =>
          (some [{ kind := predCmp, a := fldType, b := cmpIn, val := mask }], c) := by
        funext c
        simp only [conj, inPreds, identOf, if_true, built]
      have opposite : negConj (.call .inList [.ident "ko_type", .list operands]) = fun c =>
          (some [{ kind := predCmp, a := fldType, b := cmpNotIn, val := mask }], c) := by
        funext c
        simp only [negConj, negInPreds, identOf, if_true, built]
      intro c preds accepted ev known verdict
      obtain ⟨types, values, bits⟩ := type_mask_loop_spec cel lawful ev operands 0 mask loop
      obtain ⟨inside, outside⟩ := type_mask_meets ev known mask _ bits
      have value := eval_nots cel lawful (activation ev) _ n _
        (lawful.inList _ _ _ _ _ (type_name_eval cel lawful ev) (lawful.list _ _ _ values))
      rcases conj_nots_cases n (.call .inList [.ident "ko_type", .list operands]) with even | odd
      · rw [even.1, pushed] at accepted
        obtain rfl := Option.some.inj accepted
        rw [value, even.2.2, ← inside, type_pred_holds]
      · rw [odd.1, opposite] at accepted
        obtain rfl := Option.some.inj accepted
        rw [value, odd.2.2, ← outside, type_pred_holds]

theorem type_tests_faithful_iff (n : Nat) (test : TypeTest) :
    PushedFaithfully cel (nots n test.expr) ↔ test.Encoded n := by
  cases test with
  | compare function comparison operand plain =>
      rw [TypeTest.expr, TypeTest.Encoded]
      cases named : operandType operand with
      | none =>
          refine ⟨fun _ => Or.inr (Or.inr (Or.inl rfl)), ?_⟩
          intro _ c preds accepted
          rw [(conj_nots_comparison n function comparison _).1,
            type_test_refused _ operand plain named] at accepted
          cases accepted
      | some type =>
          rw [type_comparison_iff cel lawful n function comparison operand type named]
          simp
  | member operands _ =>
      rw [TypeTest.expr, TypeTest.Encoded, iff_true]
      exact type_membership_faithful cel lawful n operands

end Lawful

def beforeProbe : TypeTest := .compare .less rfl (.literal (.string "probe")) (.text "probe")

/-- `ko_type < "probe"` compiles to no predicate at all and matches every event. -/
theorem type_order_pushed_as_nothing :
    (conj beforeProbe.expr Compiler.empty).1 = some [] ∧
      (referenceCel []).eval beforeProbe.expr (activation { type := evtRetransmit }) =
        .ok (.bool false) ∧
      predsHold { type := evtRetransmit } 0 [] = true ∧
      ¬PushedFaithfully (referenceCel []) (nots 0 beforeProbe.expr) := by
  refine ⟨rfl, rfl, rfl, ?_⟩
  intro faithful
  have agreed := faithful Compiler.empty [] rfl { type := evtRetransmit }
    (Or.inr (Or.inr (Or.inl rfl))) 0
  exact absurd (Value.bool.inj (Except.ok.inj agreed)) (by decide)

def notAfterRetransmit : TypeTest :=
  .compare .greater rfl (.ident "ko_type_retransmit") (.const _ evtRetransmit rfl)

theorem type_tests_faithful_iff_instances :
    PushedFaithfully (referenceCel []) (nots 1 notAfterRetransmit.expr) ∧
      ¬PushedFaithfully (referenceCel []) (nots 2 notAfterRetransmit.expr) := by
  have exact_ := fun n => type_tests_faithful_iff (referenceCel []) (reference_lawful []) n
    notAfterRetransmit
  constructor
  · apply (exact_ 1).mpr
    exact Or.inr (Or.inr (Or.inr (Or.inl ⟨rfl, rfl⟩)))
  · intro faithful
    have encoded := (exact_ 2).mp faithful
    simp [TypeTest.Encoded, notAfterRetransmit, effective, negated, operandType, typeConsts] at encoded

end TypeNames

section NumericLiterals

/-- The event with the life time the tracer takes between two clock readings. -/
def timed (ev : Event) (now start : U64) : Event := { ev with lifeUS := (now - start) / 1000 }

def statsTest (function : Function) (name : String) (value : U64) : Expr :=
  .call function [.ident name, .literal (.int value)]

theorem timed_life_small (ev : Event) (now start : U64) :
    (timed ev now start).lifeUS.toNat < 2 ^ 63 := by
  have bound := (now - start).isLt
  rw [timed, BitVec.toNat_udiv]
  exact Nat.div_lt_of_lt_mul (show (now - start).toNat < 1000 * 2 ^ 63 by omega)

/-- Against a negative literal every ordering is answered the other way round: the
field counts from 0 up and the literal becomes a word above all fields. -/
theorem negative_literal_ordering (left right : U64) (small : left.toNat < 2 ^ 63)
    (negative : right.toInt < 0) :
    left.slt right = !decide (left < right) ∧ left.sle right = !decide (left ≤ right) ∧
      right.slt left = !decide (right < left) ∧ right.sle left = !decide (right ≤ left) := by
  have position : left.toInt = left.toNat := BitVec.toInt_eq_toNat_of_lt (by omega)
  have large : 2 ^ 63 ≤ right.toNat := by
    by_contra below
    have value : right.toInt = right.toNat := BitVec.toInt_eq_toNat_of_lt (by omega)
    omega
  simp only [BitVec.slt, BitVec.sle, BitVec.lt_def, BitVec.le_def, ← decide_not, decide_eq_decide]
  omega

theorem int_compare_agrees_iff (function : Function) (comparison : isComparison function = true)
    (left right : U64) (small : left.toNat < 2 ^ 63) :
    ∃ compare, intCompare function = some compare ∧
      (PredicateMachine.cmpField (cmpKind function) left right = compare left right ↔
        0 ≤ right.toInt ∨ function = .equals ∨ function = .notEquals) := by
  rcases Int.lt_or_le right.toInt 0 with negative | nonnegative
  · obtain ⟨less, lessEquals, greater, greaterEquals⟩ :=
      negative_literal_ordering left right small negative
    have below : ¬0 ≤ right.toInt := by omega
    have never : ∀ answer : Bool, answer = !answer → False := by decide
    cases function with
    | equals => exact ⟨_, rfl, by simp [cmpKind, PredicateMachine.cmpField]⟩
    | notEquals => exact ⟨_, rfl, by simp [cmpKind, PredicateMachine.cmpField, cmpNeq, cmpEq]⟩
    | less =>
        refine ⟨_, rfl, ⟨fun same => (never _ (same.trans less)).elim, ?_⟩⟩
        simp [below]
    | lessEquals =>
        refine ⟨_, rfl, ⟨fun same => (never _ (same.trans lessEquals)).elim, ?_⟩⟩
        simp [below]
    | greater =>
        refine ⟨_, rfl, ⟨fun same => (never _ (same.trans greater)).elim, ?_⟩⟩
        simp [below]
    | greaterEquals =>
        refine ⟨_, rfl, ⟨fun same => (never _ (same.trans greaterEquals)).elim, ?_⟩⟩
        simp [below]
    | _ => cases comparison
  · have rightSmall : right.toNat < 2 ^ 63 := by
      rw [BitVec.toInt_eq_toNat_cond] at nonnegative
      have bound := right.isLt
      split_ifs at nonnegative <;> omega
    obtain ⟨compare, found, same⟩ := int_compare_field function comparison left right small rightSmall
    exact ⟨compare, found, ⟨fun _ => Or.inl nonnegative, fun _ => same.symm⟩⟩

theorem effective_cmp_field (n : Nat) (function : Function)
    (comparison : isComparison function = true) (left right : U64) :
    PredicateMachine.cmpField (cmpKind (effective n function)) left right =
      flipped n (PredicateMachine.cmpField (cmpKind function) left right) := by
  induction n with
  | zero => rfl
  | succ n induction =>
      have comparable := effective_comparison n function comparison
      rw [effective, flipped, ← induction, ← (flip_cmp_kind _ comparable).1]
      exact cmp_field_flip _ comparable left right

theorem numeric_pushdown_exact_iff (cel : Cel) (lawful : cel.Lawful) (c : Compiler) (n : Nat)
    (function : Function) (comparison : isComparison function = true) (name : String) (field : U8)
    (known : statsFields name = some field) (value : U64) (ev : Event) (now start mask : U64) :
    ∃ preds, (conj (nots n (statsTest function name value)) c).1 = some preds ∧
      (cel.eval (nots n (statsTest function name value)) (activation (timed ev now start)) =
          .ok (.bool (predsHold (timed ev now start) mask preds)) ↔
        0 ≤ value.toInt ∨ function = .equals ∨ function = .notEquals) := by
  refine ⟨[{ kind := predCmp, a := field, b := cmpKind (effective n function), val := value }], ?_, ?_⟩
  · rw [statsTest, (conj_nots_comparison n function comparison _).1,
      stats_leaf_action name field _ value known]
  · obtain ⟨compare, found, agrees⟩ := int_compare_agrees_iff function comparison
      (eventField field (timed ev now start)) value
      (event_field_small _ (timed_life_small ev now start) name field known)
    have signed := eval_nots cel lawful (activation (timed ev now start)) _ n _
      (lawful.intCompare function compare _ _ _ _ _ found
        (lawful.ident name _ _ (stats_activation _ name field known)) (lawful.int value _))
    have unsigned : predsHold (timed ev now start) mask
        [{ kind := predCmp, a := field, b := cmpKind (effective n function), val := value }] =
          flipped n (PredicateMachine.cmpField (cmpKind function)
            (eventField field (timed ev now start)) value) := by
      rw [← effective_cmp_field n function comparison]
      simp [predsHold, predHolds]
    rw [statsTest, signed, unsigned, Except.ok.injEq, Value.bool.injEq, flipped_injective, ← agrees]
    exact eq_comm

/-- `ko_rtt_us > -1` is true of every event, and its predicate of none. -/
theorem negative_literal_pushed_unsigned :
    (conj (statsTest .greater "ko_rtt_us" (-1)) Compiler.empty).1 =
        some [{ kind := predCmp, a := fldRTT, b := cmpGt, val := -1 }] ∧
      (referenceCel []).eval (statsTest .greater "ko_rtt_us" (-1)) (activation (timed {} 0 0)) =
        .ok (.bool true) ∧
      predsHold (timed {} 0 0) 0 [{ kind := predCmp, a := fldRTT, b := cmpGt, val := -1 }] = false :=
  ⟨rfl, rfl, rfl⟩

/-- The largest literal is compared exactly, under one negation, and the smallest is not. -/
theorem numeric_pushdown_exact_iff_extremes :
    (∃ preds, (conj (nots 1 (statsTest .less "ko_life_us" (BitVec.intMax 64))) Compiler.empty).1 =
        some preds ∧
      (referenceCel []).eval (nots 1 (statsTest .less "ko_life_us" (BitVec.intMax 64)))
          (activation (timed {} 5000 1000)) =
        .ok (.bool (predsHold (timed {} 5000 1000) 0 preds))) ∧
    ∃ preds, (conj (nots 1 (statsTest .less "ko_life_us" (BitVec.intMin 64))) Compiler.empty).1 =
        some preds ∧
      ¬(referenceCel []).eval (nots 1 (statsTest .less "ko_life_us" (BitVec.intMin 64)))
          (activation (timed {} 5000 1000)) =
        .ok (.bool (predsHold (timed {} 5000 1000) 0 preds)) := by
  have exact_ := fun value => numeric_pushdown_exact_iff (referenceCel []) (reference_lawful [])
    Compiler.empty 1 .less rfl "ko_life_us" fldLife rfl value {} 5000 1000 0
  constructor
  · obtain ⟨preds, pushed, agrees⟩ := exact_ (BitVec.intMax 64)
    exact ⟨preds, pushed, agrees.mpr (Or.inl (by decide))⟩
  · obtain ⟨preds, pushed, agrees⟩ := exact_ (BitVec.intMin 64)
    refine ⟨preds, pushed, fun same => ?_⟩
    exact absurd (agrees.mp same) (by decide)

end NumericLiterals

end KoAgent.ComparisonTests
