import KoAgent.PushdownMeaning

/-!
# Comparisons with the literal on the left

`cmpPreds` turns `lit op field` around with `flipCmp`, the table that negates an
operator. The mirror image of an ordering differs from its negation only where
both sides are equal; the mirror image of an equality is never its negation.
Everything is stated for an expression context of negations and conjunctions.
-/

namespace KoAgent.MirroredComparison

open KoAgent.FilterModel KoAgent.CelExpression KoAgent.FilterCompiler KoAgent.CompilerShape
open KoAgent.PushdownMeaning
open KoAgent.PredicateMachine hiding cmpField

set_option autoImplicit false

inductive Context where
  | hole
  | logicalNot (inner : Context)
  | left (inner : Context) (other : Expr)
  | right (other : Expr) (inner : Context)

def Context.plug : Context → Expr → Expr
  | .hole, e => e
  | .logicalNot inner, e => .call .logicalNot [inner.plug e]
  | .left inner other, e => .call .logicalAnd [inner.plug e, other]
  | .right other inner, e => .call .logicalAnd [other, inner.plug e]

/-- The operator after swapping the operands. -/
def mirror : Function → Function
  | .less => .greater
  | .lessEquals => .greaterEquals
  | .greater => .less
  | .greaterEquals => .lessEquals
  | function => function

def isOrdering : Function → Bool
  | .less | .lessEquals | .greater | .greaterEquals => true
  | _ => false

/-- The fields and literals that can stand in one comparison. -/
inductive Comparable : String → Literal → Prop
  | stats (name : String) (field : U8) (value : U64) (known : statsFields name = some field) :
      Comparable name (.int value)
  | attr (name : String) (field : U8) (value : String) (known : attrFields name = some field) :
      Comparable name (.string value)
  | type (value : String) (type : EventType) (known : typesByName value = some type) :
      Comparable "ko_type" (.string value)

def literalLeft (function : Function) (name : String) (lit : Literal) : Expr :=
  .call function [.literal lit, .ident name]

def fieldLeft (function : Function) (name : String) (lit : Literal) : Expr :=
  .call function [.ident name, .literal lit]

/-- In every context, from every state of the atom table: when the first
expression is accepted so is the second, with predicates of the same truth. -/
def SameMeaning (ev : Event) (mask : U64) (first second : Expr) : Prop :=
  ∀ (ctx : Context) (c : Compiler) (preds : List Pred),
    (conj (ctx.plug first) c).1 = some preds →
      ∃ others, (conj (ctx.plug second) c).1 = some others ∧
        predsHold ev mask preds = predsHold ev mask others

/-- Two results of the same shape and the same truth. -/
inductive AlikeResults (ev : Event) (mask : U64) :
    Option (List Pred) → Option (List Pred) → Prop
  | refused : AlikeResults ev mask none none
  | accepted (left right : List Pred) (same : predsHold ev mask left = predsHold ev mask right) :
      AlikeResults ev mask (some left) (some right)

def Alike (ev : Event) (mask : U64) (first second : Action) : Prop :=
  ∀ c, (first c).2 = (second c).2 ∧ AlikeResults ev mask (first c).1 (second c).1

theorem alike_refl (ev : Event) (mask : U64) (action : Action) : Alike ev mask action action := by
  intro c
  refine ⟨rfl, ?_⟩
  cases (action c).1 with
  | none => exact .refused
  | some preds => exact .accepted _ _ rfl

theorem and_then_alike (ev : Event) (mask : U64) (first second third fourth : Action)
    (one : Alike ev mask first third) (two : Alike ev mask second fourth) :
    Alike ev mask (andThen first second) (andThen third fourth) := by
  intro c
  obtain ⟨state, results⟩ := one c
  rcases early : first c with ⟨left, middle⟩
  rcases early' : third c with ⟨left', middle'⟩
  rw [early, early'] at state results
  dsimp only at state results
  subst state
  obtain ⟨lastState, lastResults⟩ := two middle
  rcases late : second middle with ⟨right, last⟩
  rcases late' : fourth middle with ⟨right', last'⟩
  rw [late, late'] at lastState lastResults
  dsimp only at lastState lastResults
  subst lastState
  cases results with
  | refused =>
      simp only [andThen, early, early']
      exact ⟨trivial, .refused⟩
  | accepted leftPreds leftOthers leftSame =>
      cases lastResults with
      | refused =>
          simp only [andThen, early, early', late, late']
          exact ⟨trivial, .refused⟩
      | accepted rightPreds rightOthers rightSame =>
          simp only [andThen, early, early', late, late']
          refine ⟨trivial, .accepted _ _ ?_⟩
          rw [preds_hold_append, preds_hold_append, leftSame, rightSame]

/-- Alikeness of the hole carries over to every context, by induction over it. -/
theorem plug_alike (ev : Event) (mask : U64) (first second : Expr)
    (pushed : Alike ev mask (conj first) (conj second))
    (negated : Alike ev mask (negConj first) (negConj second)) (ctx : Context) :
    Alike ev mask (conj (ctx.plug first)) (conj (ctx.plug second)) ∧
      Alike ev mask (negConj (ctx.plug first)) (negConj (ctx.plug second)) := by
  induction ctx with
  | hole => exact ⟨pushed, negated⟩
  | logicalNot inner induction => exact ⟨induction.2, induction.1⟩
  | left inner other induction =>
      refine ⟨?_, alike_refl ev mask refuse⟩
      rw [Context.plug, Context.plug, conj_and, conj_and]
      exact and_then_alike ev mask _ _ _ _ induction.1 (alike_refl ev mask _)
  | right other inner induction =>
      refine ⟨?_, alike_refl ev mask refuse⟩
      rw [Context.plug, Context.plug, conj_and, conj_and]
      exact and_then_alike ev mask _ _ _ _ (alike_refl ev mask _) induction.1

/-- Two orderings that differ only on equal operands. -/
inductive Adjacent : U8 → U8 → Prop
  | less : Adjacent cmpLt cmpLe
  | lessEquals : Adjacent cmpLe cmpLt
  | greater : Adjacent cmpGt cmpGe
  | greaterEquals : Adjacent cmpGe cmpGt

theorem adjacent_apart (left right : U8) (adjacent : Adjacent left right) (a b : U64)
    (apart : a ≠ b) :
    PredicateMachine.cmpField left a b = PredicateMachine.cmpField right a b := by
  have different : a.toNat ≠ b.toNat := fun same => apart (BitVec.eq_of_toNat_eq same)
  have order : ∀ first second : U64, first.toNat ≠ second.toNat →
      decide (first < second) = decide (first ≤ second) := by
    intro first second unequal
    simp only [BitVec.lt_def, BitVec.le_def, decide_eq_decide]
    omega
  cases adjacent with
  | less => exact order a b different
  | lessEquals => exact (order a b different).symm
  | greater => exact order b a different.symm
  | greaterEquals => exact (order b a different.symm).symm

theorem adjacent_equal (left right : U8) (adjacent : Adjacent left right) (a : U64) :
    PredicateMachine.cmpField left a a ≠ PredicateMachine.cmpField right a a := by
  have strict : decide (a < a) = false := by simp
  have loose : decide (a ≤ a) = true := by simp
  cases adjacent with
  | less | greater =>
      change decide (a < a) ≠ decide (a ≤ a)
      rw [strict, loose]
      decide
  | lessEquals | greaterEquals =>
      change decide (a ≤ a) ≠ decide (a < a)
      rw [strict, loose]
      decide

theorem mirror_adjacent (function : Function) (ordering : isOrdering function = true) :
    Adjacent (flipCmp (cmpKind function)) (cmpKind (mirror function)) ∧
      Adjacent (flipCmp (flipCmp (cmpKind function))) (flipCmp (cmpKind (mirror function))) := by
  cases function with
  | less => exact ⟨.greaterEquals, .less⟩
  | lessEquals => exact ⟨.greater, .lessEquals⟩
  | greater => exact ⟨.lessEquals, .greater⟩
  | greaterEquals => exact ⟨.less, .greaterEquals⟩
  | _ => cases ordering

theorem cmp_preds_operand (name : String) (lit : Literal) (kind : U8) :
    cmpPreds [.literal lit, .ident name] kind = cmpOperand name (flipCmp kind) (.literal lit) ∧
      cmpPreds [.ident name, .literal lit] kind = cmpOperand name kind (.literal lit) := ⟨rfl, rfl⟩

theorem stats_operand (name : String) (field kind : U8) (value : U64)
    (known : statsFields name = some field) (c : Compiler) :
    cmpOperand name kind (.literal (.int value)) c =
      (some [{ kind := predCmp, a := field, b := kind, val := value }], c) := by
  rw [← (cmp_preds_operand name (.int value) kind).2, stats_leaf_action name field kind value known]

theorem attr_operand (name : String) (field kind : U8) (value : String)
    (known : attrFields name = some field) (c : Compiler) :
    cmpOperand name kind (.literal (.string value)) c =
      if kind = cmpEq then attrPredOne field attrEq [value] 0 c
      else if kind = cmpNeq then attrPredOne field attrEq [value] 1 c
      else (none, c) := by
  obtain ⟨other, stats⟩ := attr_not_type name field known
  have untyped : decide (name = "ko_type") = false := by simpa using other
  unfold cmpOperand
  rw [untyped]
  have direct : FilterCompiler.cmpField name kind (.string value) c =
      if kind = cmpEq then attrPredOne field attrEq [value] 0 c
      else if kind = cmpNeq then attrPredOne field attrEq [value] 1 c
      else (none, c) := by
    simp only [FilterCompiler.cmpField, stats, known]
  cases typeBitOf (.literal (.string value)) with
  | none => exact direct
  | some bit => exact direct

theorem type_operand (kind : U8) (value : String) (type : EventType)
    (known : typesByName value = some type) (c : Compiler) :
    cmpOperand "ko_type" kind (.literal (.string value)) c =
      (some (typePreds kind (typeBit type)), c) := by
  simp only [cmpOperand, typeBitOf, known, Option.map_some, decide_true]

theorem adjacent_not_equality (left right : U8) (adjacent : Adjacent left right) :
    (left ≠ cmpEq ∧ left ≠ cmpNeq) ∧ right ≠ cmpEq ∧ right ≠ cmpNeq := by
  cases adjacent <;> decide

/-- The literal does not meet the field of the event. -/
def Apart (ev : Event) (name : String) (lit : Literal) : Prop :=
  ∀ field value, statsFields name = some field → lit = .int value → eventField field ev ≠ value

theorem operand_alike (ev : Event) (mask : U64) (name : String) (lit : Literal)
    (comparable : Comparable name lit) (apart : Apart ev name lit) (left right : U8)
    (adjacent : Adjacent left right) :
    Alike ev mask (cmpOperand name left (.literal lit)) (cmpOperand name right (.literal lit)) := by
  intro c
  obtain ⟨⟨leftEq, leftNeq⟩, rightEq, rightNeq⟩ := adjacent_not_equality left right adjacent
  cases comparable with
  | stats name field value known =>
      rw [stats_operand name field left value known, stats_operand name field right value known]
      refine ⟨rfl, .accepted _ _ ?_⟩
      simp [predsHold, predHolds,
        adjacent_apart left right adjacent _ _ (apart field value known rfl)]
  | attr name field value known =>
      rw [attr_operand name field left value known, attr_operand name field right value known]
      simp only [leftEq, leftNeq, rightEq, rightNeq, if_false]
      exact ⟨trivial, .refused⟩
  | type value type known =>
      rw [type_operand left value type known, type_operand right value type known]
      simp only [typePreds, leftEq, leftNeq, rightEq, rightNeq, if_false]
      exact ⟨trivial, .accepted _ _ rfl⟩

theorem conj_literal_left (function : Function) (comparison : isComparison function = true)
    (name : String) (lit : Literal) :
    conj (literalLeft function name lit) = cmpOperand name (flipCmp (cmpKind function)) (.literal lit) ∧
      negConj (literalLeft function name lit) =
        cmpOperand name (flipCmp (flipCmp (cmpKind function))) (.literal lit) := by
  obtain ⟨pushed, negated⟩ := conj_comparison function comparison [.literal lit, .ident name]
  exact ⟨pushed, negated⟩

theorem conj_field_left (function : Function) (comparison : isComparison function = true)
    (name : String) (lit : Literal) :
    conj (fieldLeft (mirror function) name lit) =
        cmpOperand name (cmpKind (mirror function)) (.literal lit) ∧
      negConj (fieldLeft (mirror function) name lit) =
        cmpOperand name (flipCmp (cmpKind (mirror function))) (.literal lit) := by
  have mirrored : isComparison (mirror function) = true := by
    cases function <;> first | rfl | cases comparison
  obtain ⟨pushed, negated⟩ :=
    conj_comparison (mirror function) mirrored [.ident name, .literal lit]
  exact ⟨pushed, negated⟩

theorem attr_pred_one_negated (ev : Event) (mask : U64) (field op : U8) (values : List String)
    (c : Compiler) :
    ∃ plain negated, (attrPredOne field op values 0 c).1 = some plain ∧
      (attrPredOne field op values 1 c).1 = some negated ∧
      predsHold ev mask negated = !predsHold ev mask plain := by
  refine ⟨_, _, rfl, rfl, ?_⟩
  cases found : c.atomIdx { field := field, op := op, vals := sprint values } with
  | none =>
      simp only [attrPred, found]
      simp [predsHold, predHolds, attrHolds, predAttr, predCmp, predIPSet]
  | some id =>
      simp only [attrPred, found]
      simp [predsHold, predHolds, attrHolds, predAttr, predCmp, predIPSet]

theorem equality_negated (ev : Event) (mask : U64) (name : String) (lit : Literal)
    (comparable : Comparable name lit) (c : Compiler) :
    ∃ equal unequal, (cmpOperand name cmpEq (.literal lit) c).1 = some equal ∧
      (cmpOperand name cmpNeq (.literal lit) c).1 = some unequal ∧
      predsHold ev mask unequal = !predsHold ev mask equal := by
  cases comparable with
  | stats name field value known =>
      rw [stats_operand name field cmpEq value known, stats_operand name field cmpNeq value known]
      refine ⟨_, _, rfl, rfl, ?_⟩
      simp [predsHold, predHolds, PredicateMachine.cmpField, cmpEq, cmpNeq, bne]
  | attr name field value known =>
      rw [attr_operand name field cmpEq value known, attr_operand name field cmpNeq value known]
      exact attr_pred_one_negated ev mask field attrEq [value] c
  | type value type known =>
      rw [type_operand cmpEq value type known, type_operand cmpNeq value type known]
      refine ⟨_, _, rfl, rfl, ?_⟩
      simp [typePreds, predsHold, predHolds, PredicateMachine.cmpField, cmpEq, cmpNeq, cmpLt, cmpLe,
        cmpGt, cmpGe, cmpIn, cmpNotIn, bne]

/-- An equality written with the literal first compiles to its negation. -/
theorem equality_reversed (function : Function) (equality : function = .equals ∨ function = .notEquals)
    (ev : Event) (mask : U64) (name : String) (lit : Literal) (comparable : Comparable name lit) :
    ¬SameMeaning ev mask (literalLeft function name lit) (fieldLeft (mirror function) name lit) := by
  intro same
  obtain ⟨equal, unequal, first, second, opposite⟩ :=
    equality_negated ev mask name lit comparable Compiler.empty
  rcases equality with rfl | rfl
  · obtain ⟨others, accepted, holds⟩ := same .hole Compiler.empty unequal second
    obtain rfl := Option.some.inj (first.symm.trans accepted)
    simp [opposite] at holds
  · obtain ⟨others, accepted, holds⟩ := same .hole Compiler.empty equal first
    obtain rfl := Option.some.inj (second.symm.trans accepted)
    simp [opposite] at holds

/-- A literal-left comparison means its mirror image exactly for the orderings,
away from the events whose field equals the literal. -/
theorem literal_left_mirrors_iff (function : Function) (comparison : isComparison function = true)
    (name : String) (lit : Literal) (comparable : Comparable name lit) (ev : Event) (mask : U64) :
    SameMeaning ev mask (literalLeft function name lit) (fieldLeft (mirror function) name lit) ↔
      isOrdering function = true ∧ Apart ev name lit := by
  obtain ⟨pushed, negated⟩ := conj_literal_left function comparison name lit
  obtain ⟨mirrored, mirroredNegated⟩ := conj_field_left function comparison name lit
  constructor
  · intro same
    have ordering : isOrdering function = true := by
      cases function with
      | equals => exact absurd same (equality_reversed _ (Or.inl rfl) ev mask name lit comparable)
      | notEquals => exact absurd same (equality_reversed _ (Or.inr rfl) ev mask name lit comparable)
      | less | lessEquals | greater | greaterEquals => rfl
      | _ => cases comparison
    refine ⟨ordering, ?_⟩
    intro field value known written equal
    subst written
    obtain ⟨others, accepted, holds⟩ := same .hole Compiler.empty _
      (by rw [Context.plug, pushed, stats_operand name field _ value known])
    rw [Context.plug, mirrored, stats_operand name field _ value known] at accepted
    obtain rfl := Option.some.inj accepted
    have differ := adjacent_equal _ _ (mirror_adjacent function ordering).1 value
    simp only [predsHold, predHolds, List.all_cons, List.all_nil, Bool.and_true, if_true, equal] at holds
    exact differ holds
  · rintro ⟨ordering, apart⟩ ctx c preds accepted
    obtain ⟨direct, turned⟩ := mirror_adjacent function ordering
    have alike := (plug_alike ev mask (literalLeft function name lit)
      (fieldLeft (mirror function) name lit)
      (by
        rw [pushed, mirrored]
        exact operand_alike ev mask name lit comparable apart _ _ direct)
      (by
        rw [negated, mirroredNegated]
        exact operand_alike ev mask name lit comparable apart _ _ turned) ctx).1 c
    rw [accepted] at alike
    obtain ⟨_, results⟩ := alike
    generalize (conj (ctx.plug (fieldLeft (mirror function) name lit)) c).1 = other at results
    cases results with
    | accepted _ others same => exact ⟨others, rfl, same⟩

theorem literal_left_mirrors_less_rtt :
    isComparison .less = true ∧ Comparable "ko_rtt_us" (.int 100) ∧
      SameMeaning { rttUS := 250 } 0 (literalLeft .less "ko_rtt_us" (.int 100))
        (fieldLeft .greater "ko_rtt_us" (.int 100)) := by
  have comparable : Comparable "ko_rtt_us" (.int 100) := .stats _ fldRTT 100 (by decide)
  refine ⟨rfl, comparable, ?_⟩
  refine (literal_left_mirrors_iff .less rfl "ko_rtt_us" (.int 100) comparable
    { rttUS := 250 } 0).mpr ⟨rfl, ?_⟩
  intro field value known written
  obtain rfl : fldRTT = field := Option.some.inj known
  obtain rfl : 100 = value := Literal.int.inj written
  decide

/-- `100 == ko_rtt_us` is compiled to `ko_rtt_us != 100`. -/
theorem literal_left_equality_reversed :
    ¬SameMeaning { rttUS := 100 } 0 (literalLeft .equals "ko_rtt_us" (.int 100))
      (fieldLeft .equals "ko_rtt_us" (.int 100)) := by
  intro same
  obtain ⟨others, accepted, holds⟩ := same .hole Compiler.empty _ rfl
  obtain rfl := Option.some.inj accepted
  exact absurd holds (by decide)

end KoAgent.MirroredComparison
