import KoAgent.PushdownMeaning
import KoAgent.ReferenceCel

/-!
# The predicate stream refines the CEL filters

`Fragment` is the filter language the compiler is tested on: conjunction and
negation over comparisons, memberships and CIDR tests. On it the answer of
`RunPreds` with the verdict of the event's own attributes is the answer of
`Evaluate`, except where a filter left to user space is reached first.
-/

namespace KoAgent.PushdownRefinement

open KoAgent.NetAddress KoAgent.FilterModel KoAgent.CelExpression KoAgent.FilterCompiler
open KoAgent.FilterSets KoAgent.AtomInterning KoAgent.CidrSets KoAgent.CompilerShape
open KoAgent.CompiledSets KoAgent.PushdownMeaning KoAgent.ReferenceCel
open KoAgent.PredicateMachine hiding cmpField

set_option autoImplicit false

inductive Leaf : Expr → Prop
  | stats (function : Function) (name : String) (field : U8) (value : U64)
      (comparison : isComparison function = true) (known : statsFields name = some field)
      (small : value.toNat < 2 ^ 63) :
      Leaf (.call function [.ident name, .literal (.int value)])
  | attr (function : Function) (name : String) (field : U8) (value : String)
      (equality : function = .equals ∨ function = .notEquals)
      (known : attrFields name = some field) :
      Leaf (.call function [.ident name, .literal (.string value)])
  | attrIn (name : String) (field : U8) (arg : Expr) (values : List String)
      (known : attrFields name = some field) (listed : listOfStrings arg = .ok values)
      (plain : Spaceless values) : Leaf (.call .inList [.ident name, arg])
  | type (function : Function) (operand : Expr) (bit : U64)
      (equality : function = .equals ∨ function = .notEquals)
      (known : typeBitOf operand = some bit) :
      Leaf (.call function [.ident "ko_type", operand])
  | typeIn (operands : List Expr) (nonempty : operands ≠ [])
      (known : ∀ operand ∈ operands, (typeBitOf operand).isSome) :
      Leaf (.call .inList [.ident "ko_type", .list operands])
  | ipIn (name : String) (which : U8) (arg : Expr) (cidrs : List String)
      (known : whichOf name = some which) (listed : listOfStrings arg = .ok cidrs)
      (unmapped : Unmapped cidrs) : Leaf (.call .ipIn [.ident name, arg])

inductive Fragment : Expr → Prop
  | leaf (e : Expr) (leaf : Leaf e) : Fragment e
  | logicalAnd (l r : Expr) (left : Fragment l) (right : Fragment r) :
      Fragment (.call .logicalAnd [l, r])
  | logicalNot (e : Expr) (inner : Fragment e) : Fragment (.call .logicalNot [e])

/-- The expression evaluates to `value`, and that is what its predicates say too. -/
structure Denotes (cel : Cel) (ev : Event) (e : Expr) (value : Bool) : Prop where
  eval : cel.eval e (activation ev) = .ok (.bool value)
  pushed : Means ev value (conj e)
  negated : Means ev (!value) (negConj e)

theorem string_values_map (values : List String) :
    stringValues (values.map Value.string) = some values := by
  induction values with
  | nil => rfl
  | cons value rest induction => rw [List.map_cons, stringValues, induction, Option.map_some]

section Leaves

variable (cel : Cel) (lawful : cel.Lawful) (ev : Event) (observed : Observed ev)

include lawful

include observed in
theorem stats_denotes (function : Function) (name : String) (field : U8) (value : U64)
    (comparison : isComparison function = true) (known : statsFields name = some field)
    (small : value.toNat < 2 ^ 63) :
    Denotes cel ev (.call function [.ident name, .literal (.int value)])
      (PredicateMachine.cmpField (cmpKind function) (eventField field ev) value) := by
  obtain ⟨pushed, negated⟩ :=
    conj_comparison function comparison [.ident name, .literal (.int value)]
  obtain ⟨compare, found, same⟩ := int_compare_field function comparison (eventField field ev) value
    (event_field_small ev observed.life name field known) small
  refine ⟨?_, ?_, ?_⟩
  · rw [← same]
    exact lawful.intCompare function compare _ _ _ _ _ found
      (lawful.ident name _ _ (stats_activation ev name field known)) (lawful.int _ _)
  · rw [pushed, stats_leaf_action name field _ value known]
    exact one_cmp_means ev field _ value
  · rw [negated, stats_leaf_action name field _ value known, ← cmp_field_flip function comparison]
    exact one_cmp_means ev field _ value

omit lawful in
theorem attr_kind_means (name : String) (field kind : U8) (value : String)
    (known : attrFields name = some field) (equality : kind = cmpEq ∨ kind = cmpNeq) :
    Means ev ((attrValue field ev.attrs == value) == (kind == cmpEq))
      (cmpPreds [.ident name, .literal (.string value)] kind) := by
  have means := fun neg => attr_pred_one_means ev field attrEq [value] neg
    (equality_admissible field value)
  rw [attr_leaf_action name field kind value known equality]
  rcases equality with rfl | rfl
  · exact means 0
  · exact means 1

theorem attr_denotes (function : Function) (name : String) (field : U8) (value : String)
    (equality : function = .equals ∨ function = .notEquals)
    (known : attrFields name = some field) :
    Denotes cel ev (.call function [.ident name, .literal (.string value)])
      ((attrValue field ev.attrs == value) == (cmpKind function == cmpEq)) := by
  have left := lawful.ident name _ _ (attr_activation ev name field known)
  have right := lawful.string value (activation ev)
  have equal := attr_kind_means ev name field cmpEq value known (Or.inl rfl)
  have unequal := attr_kind_means ev name field cmpNeq value known (Or.inr rfl)
  rw [beq_self_eq_true, beq_true] at equal
  rw [show (cmpNeq == cmpEq) = false from rfl, beq_false] at unequal
  rcases equality with rfl | rfl
  · rw [show (cmpKind .equals == cmpEq) = true from rfl, beq_true]
    exact ⟨lawful.stringCompare .equals _ _ _ _ _ _ rfl left right, equal, unequal⟩
  · rw [show (cmpKind .notEquals == cmpEq) = false from rfl, beq_false]
    refine ⟨lawful.stringCompare .notEquals _ _ _ _ _ _ rfl left right, unequal, ?_⟩
    rw [Bool.not_not]
    exact equal

theorem attr_in_denotes (name : String) (field : U8) (arg : Expr) (values : List String)
    (known : attrFields name = some field) (listed : listOfStrings arg = .ok values)
    (plain : Spaceless values) :
    Denotes cel ev (.call .inList [.ident name, arg])
      (values.contains (attrValue field ev.attrs)) := by
  obtain ⟨other, _⟩ := attr_not_type name field known
  obtain ⟨first, rest, rfl⟩ := List.exists_cons_of_ne_nil plain.1
  have pushed : conj (.call .inList [.ident name, arg]) =
      attrPredOne field attrIn (first :: rest) 0 := by
    funext c
    simp only [conj, inPreds, identOf, other, if_false, known, listed]
  have negated : negConj (.call .inList [.ident name, arg]) = fun c =>
      (some (negAttrPreds field (first :: rest) c).1, (negAttrPreds field (first :: rest) c).2) := by
    funext c
    simp only [negConj, negInPreds, identOf, other, if_false, known, listed]
  refine ⟨?_, ?_, ?_⟩
  · exact lawful.inList _ _ _ _ _ (lawful.ident name _ _ (attr_activation ev name field known))
      (list_of_strings_eval cel lawful ev arg _ listed)
  · rw [pushed]
    rw [List.contains_eq_any_beq, ← beq_true (List.any _ _)]
    exact attr_pred_one_means ev field attrIn (first :: rest) 0 (Or.inr ⟨rfl, plain⟩)
  · rw [negated]
    intro c interned
    obtain ⟨next, grown, holds⟩ := neg_attr_preds_means ev field (first :: rest) c interned
    refine ⟨next, grown, ?_⟩
    intro preds same
    obtain rfl := Option.some.inj same
    exact holds

omit lawful in
theorem type_kind_means (kind : U8) (operand : Expr) (bit : U64) (same : Bool)
    (equality : kind = cmpEq ∨ kind = cmpNeq) (known : typeBitOf operand = some bit)
    (meets : (eventField fldType ev &&& bit != 0) = same) :
    Means ev (same == (kind == cmpEq)) (cmpPreds [.ident "ko_type", operand] kind) := by
  have action : cmpPreds [.ident "ko_type", operand] kind = fun c => (some (typePreds kind bit), c) := by
    funext c
    simp only [cmpPreds, identOf, cmpOperand, known, decide_true]
  rw [action]
  rcases equality with rfl | rfl
  · have holds := one_cmp_means ev fldType cmpIn bit
    rw [beq_self_eq_true, beq_true, ← meets]
    exact holds
  · have holds := one_cmp_means ev fldType cmpNotIn bit
    rw [show (cmpNeq == cmpEq) = false from rfl, beq_false, ← meets, bne, Bool.not_not]
    exact holds

include observed in
theorem type_denotes (function : Function) (operand : Expr) (bit : U64)
    (equality : function = .equals ∨ function = .notEquals)
    (known : typeBitOf operand = some bit) :
    ∃ value, Denotes cel ev (.call function [.ident "ko_type", operand]) value := by
  obtain ⟨type, listed, rfl, right⟩ := type_operand_spec cel lawful ev operand bit known
  have left : cel.eval (.ident "ko_type") (activation ev) = .ok (.string (eventTypeName ev.type)) :=
    lawful.ident _ _ _ rfl
  have meets := type_bits_meet ev.type type observed.type listed
  have equal := type_kind_means ev cmpEq operand _ _ (Or.inl rfl) known meets
  have unequal := type_kind_means ev cmpNeq operand _ _ (Or.inr rfl) known meets
  rw [beq_self_eq_true, beq_true] at equal
  rw [show (cmpNeq == cmpEq) = false from rfl, beq_false] at unequal
  rcases equality with rfl | rfl
  · exact ⟨_, lawful.stringCompare .equals _ _ _ _ _ _ rfl left right, equal, unequal⟩
  · refine ⟨_, lawful.stringCompare .notEquals _ _ _ _ _ _ rfl left right, unequal, ?_⟩
    rw [bne, Bool.not_not]
    exact equal

omit lawful in
theorem type_mask_loop_total (operands : List Expr) (start : U64)
    (known : ∀ operand ∈ operands, (typeBitOf operand).isSome) :
    ∃ mask, typeMaskLoop start operands = some mask := by
  induction operands generalizing start with
  | nil => exact ⟨start, rfl⟩
  | cons operand rest induction =>
      obtain ⟨bit, found⟩ := Option.isSome_iff_exists.mp (known operand List.mem_cons_self)
      rw [typeMaskLoop, found]
      exact induction _ fun other member => known other (List.mem_cons_of_mem _ member)

include observed in
theorem type_in_denotes (operands : List Expr) (nonempty : operands ≠ [])
    (known : ∀ operand ∈ operands, (typeBitOf operand).isSome) :
    ∃ value, Denotes cel ev (.call .inList [.ident "ko_type", .list operands]) value := by
  obtain ⟨mask, built⟩ := type_mask_loop_total operands 0 known
  obtain ⟨types, values, bits⟩ := type_mask_loop_spec cel lawful ev operands 0 mask built
  obtain ⟨inside, outside⟩ := type_mask_meets ev observed.type mask _ bits
  have maskOf : typeMaskOf (.list operands) = some mask := by
    cases operands with
    | nil => exact absurd rfl nonempty
    | cons first rest => exact built
  have left : cel.eval (.ident "ko_type") (activation ev) = .ok (.string (eventTypeName ev.type)) :=
    lawful.ident _ _ _ rfl
  have pushed : conj (.call .inList [.ident "ko_type", .list operands]) = fun c =>
      (some [{ kind := predCmp, a := fldType, b := cmpIn, val := mask }], c) := by
    funext c
    simp only [conj, inPreds, identOf, if_true, maskOf]
  have negated : negConj (.call .inList [.ident "ko_type", .list operands]) = fun c =>
      (some [{ kind := predCmp, a := fldType, b := cmpNotIn, val := mask }], c) := by
    funext c
    simp only [negConj, negInPreds, identOf, if_true, maskOf]
  refine ⟨_, lawful.inList _ _ _ _ _ left (lawful.list _ _ _ values), ?_, ?_⟩
  · rw [pushed, ← inside]
    exact one_cmp_means ev fldType cmpIn mask
  · rw [negated, ← outside]
    exact one_cmp_means ev fldType cmpNotIn mask

include observed in
theorem ip_in_denotes (name : String) (which : U8) (arg : Expr) (cidrs : List String)
    (known : whichOf name = some which) (listed : listOfStrings arg = .ok cidrs)
    (unmapped : Unmapped cidrs) :
    ∃ value, Denotes cel ev (.call .ipIn [.ident name, arg]) value := by
  obtain ⟨port, endpoint⟩ := endpoint_activation ev name which known
  have shape : IPShape (if which = 1 then ev.remoteIP else ev.localIP) := by
    split
    · exact observed.remoteIP
    · exact observed.localIP
  have means : ∀ neg : U8, Means ev
      (addrInCIDRs (hostPort (if which = 1 then ev.remoteIP else ev.localIP) port) cidrs == (neg == 0))
      fun c => (ipInPreds [.ident name, arg] neg, c) := by
    intro neg
    apply fixed_means
    intro preds built mask
    simp only [ipInPreds, identOf, known, listed] at built
    cases cidrs with
    | nil =>
        dsimp only at built
        split_ifs at built
        obtain rfl := Option.some.inj built
        rw [addr_in_cidrs_endpoint _ shape, List.any_nil, Bool.and_false]
        simp [predsHold, predHolds, ev_ip_in_empty_set, predCmp, predIPSet]
    | cons first rest =>
        obtain ⟨q, made, rfl⟩ := Option.map_eq_some_iff.mp built
        obtain ⟨_, kind, _, neg_, _⟩ := ip_set_pred_spec which neg _ q made
        have set := ip_set_pred_means ev which neg _ q made unmapped _ rfl shape port
        simp [predsHold, predHolds, kind, neg_, set, predCmp, predIPSet]
  have eval : cel.eval (.call .ipIn [.ident name, arg]) (activation ev) = .ok (.bool
      (addrInCIDRs (hostPort (if which = 1 then ev.remoteIP else ev.localIP) port) cidrs)) := by
    rw [lawful.ipIn _ _ _ _ _ (lawful.ident _ _ _ endpoint)
      (list_of_strings_eval cel lawful ev arg cidrs listed), ipInVal, string_values_map]
  refine ⟨_, eval, ?_, ?_⟩
  · have pushed := means 0
    rw [beq_self_eq_true, beq_true] at pushed
    exact pushed
  · have negated := means 1
    rw [show ((1 : U8) == 0) = false from rfl, beq_false] at negated
    exact negated

end Leaves

theorem leaf_denotes (cel : Cel) (lawful : cel.Lawful) (ev : Event) (observed : Observed ev)
    (e : Expr) (leaf : Leaf e) : ∃ value, Denotes cel ev e value := by
  cases leaf with
  | stats function name field value comparison known small =>
      exact ⟨_, stats_denotes cel lawful ev observed function name field value comparison known small⟩
  | attr function name field value equality known =>
      exact ⟨_, attr_denotes cel lawful ev function name field value equality known⟩
  | attrIn name field arg values known listed plain =>
      exact ⟨_, attr_in_denotes cel lawful ev name field arg values known listed plain⟩
  | type function operand bit equality known =>
      exact type_denotes cel lawful ev observed function operand bit equality known
  | typeIn operands nonempty known =>
      exact type_in_denotes cel lawful ev observed operands nonempty known
  | ipIn name which arg cidrs known listed unmapped =>
      exact ip_in_denotes cel lawful ev observed name which arg cidrs known listed unmapped

/-- A negated conjunction is refused, so its negated form carries no obligation. -/
theorem Denotes.logicalAnd {cel : Cel} (lawful : cel.Lawful) {ev : Event} {l r : Expr}
    {left right : Bool} (first : Denotes cel ev l left) (second : Denotes cel ev r right) :
    Denotes cel ev (.call .logicalAnd [l, r]) (left && right) where
  eval := lawful.logicalAnd l r left right _ first.eval second.eval
  pushed := by
    rw [conj_and]
    exact and_then_means ev _ _ _ _ first.pushed second.pushed
  negated := refuse_means ev _

theorem Denotes.logicalNot {cel : Cel} (lawful : cel.Lawful) {ev : Event} {e : Expr} {value : Bool}
    (inner : Denotes cel ev e value) : Denotes cel ev (.call .logicalNot [e]) (!value) where
  eval := lawful.logicalNot e value _ inner.eval
  pushed := inner.negated
  negated := by
    rw [Bool.not_not]
    exact inner.pushed

theorem fragment_denotes (cel : Cel) (lawful : cel.Lawful) (ev : Event) (observed : Observed ev)
    (e : Expr) (language : Fragment e) : ∃ value, Denotes cel ev e value := by
  induction language with
  | leaf e leaf => exact leaf_denotes cel lawful ev observed e leaf
  | logicalAnd l r _ _ left right =>
      obtain ⟨leftValue, leftDenotes⟩ := left
      obtain ⟨rightValue, rightDenotes⟩ := right
      exact ⟨_, leftDenotes.logicalAnd lawful rightDenotes⟩
  | logicalNot e _ inner =>
      obtain ⟨value, denotes⟩ := inner
      exact ⟨_, denotes.logicalNot lawful⟩

/-- A filter's program and its compiled form, on one event and mask. -/
def Agrees (ev : Event) (mask : U64) (prg : Program) (result : Option (List Pred)) : Prop :=
  ∃ value, prg (activation ev) = .ok (.bool value) ∧
    ∀ preds, result = some preds → predsHold ev mask preds = value

theorem interned_bounded (c : Compiler) (interned : Interned c) : Bounded c := by
  intro key id found
  obtain ⟨_, position, _⟩ := interned.indexed key id found
  exact (List.getElem?_eq_some_iff.mp position).1

theorem conj_all_agrees (cel : Cel) (lawful : cel.Lawful) (ev : Event)
    (final : List Atom) (bound : final.length ≤ 64) (es : List Expr)
    (all : ∀ e ∈ es, ∃ value, Denotes cel ev e value) (progs : List Program)
    (built : List.Forall₂ (fun e prg => cel.program e = .ok prg) es progs) (c : Compiler)
    (interned : Interned c) (grown : (conjAll es c).2.atoms <+: final) :
    List.Forall₂ (Agrees ev (verdictMask final ev.attrs)) progs (conjAll es c).1 := by
  induction built generalizing c with
  | nil => exact .nil
  | @cons e prg es progs made _ induction =>
      obtain ⟨value, denotes⟩ := all e List.mem_cons_self
      obtain ⟨next, _, holds⟩ := denotes.pushed c interned
      have others := fun other member => all other (List.mem_cons_of_mem e member)
      have rest := induction others (conj e c).2 next grown
      refine .cons ⟨value, ?_, ?_⟩ rest
      · rw [lawful.program_eval e prg made]
        exact denotes.eval
      · intro preds same
        have further := (conj_all_well_formed es _ (interned_bounded _ next)).2.1
        exact holds preds same final (further.trans grown) bound

/-- The three ways a walk can end, against the outcome of the evaluation and the
marks of the filters left to user space. -/
inductive Agreement (i : Nat) (userspace : List Bool) : Option Nat → U16 → Prop
  | matched (k : Nat) (inside : k < userspace.length)
      (pushed : ∀ j ≤ k, userspace[j]? = some false) :
      Agreement i userspace (some (i + k)) (BitVec.ofNat 16 (i + k))
  | dropped (pushed : ∀ mark ∈ userspace, mark = false) : Agreement i userspace none filterDrop
  | undecided (outcome : Option Nat) (j : Nat) (marked : userspace[j]? = some true)
      (first : ∀ k, outcome = some k → i + j ≤ k) :
      Agreement i userspace outcome filterUndecided

theorem Agreement.shift {i : Nat} {userspace : List Bool} {outcome : Option Nat} {answer : U16}
    (later : Agreement (i + 1) userspace outcome answer) :
    Agreement i (false :: userspace) outcome answer := by
  cases later with
  | matched k inside pushed =>
      rw [show i + 1 + k = i + (k + 1) by omega]
      refine .matched (k + 1) (Nat.succ_lt_succ inside) ?_
      intro j below
      cases j with
      | zero => rfl
      | succ j => exact pushed j (Nat.le_of_succ_le_succ below)
  | dropped pushed => exact .dropped (by simpa using pushed)
  | undecided _ j marked first =>
      refine .undecided _ (j + 1) marked ?_
      intro k found
      have := first k found
      omega

theorem evaluate_from_bound (act : Activation) (progs : List Program) (i k : Nat)
    (found : evaluateFrom act i progs = some k) : i ≤ k := by
  induction progs generalizing i with
  | nil => cases found
  | cons prg rest induction =>
      rw [evaluateFrom] at found
      split_ifs at found
      · obtain rfl := Option.some.inj found
        exact Nat.le_refl i
      · exact Nat.le_of_succ_le (induction (i + 1) found)

theorem walk_agreement (ev : Event) (mask : U64) (progs : List Program)
    (results : List (Option (List Pred))) (agree : List.Forall₂ (Agrees ev mask) progs results)
    (i : Nat) :
    Agreement i (results.map Option.isNone) (evaluateFrom (activation ev) i progs)
      (walkAnswer ev (some mask) i results) := by
  induction agree generalizing i with
  | nil => exact .dropped (by simp)
  | @cons prg result progs results head _ induction =>
      obtain ⟨value, outcome, holds⟩ := head
      cases result with
      | none =>
          refine .undecided _ 0 rfl ?_
          intro k found
          exact evaluate_from_bound _ _ i k found
      | some preds =>
          have known := conj_outcome_known ev mask preds
          rw [holds preds rfl] at known
          cases value with
          | true =>
              have answer : walkAnswer ev (some mask) i (some preds :: results) =
                  BitVec.ofNat 16 i := by
                simp only [walkAnswer, known, triOfBool, if_true]
              have matched : evaluateFrom (activation ev) i (prg :: progs) = some i := by
                simp only [evaluateFrom, outcome, FilterSets.isTrue, if_true]
              rw [answer, matched]
              refine .matched 0 (Nat.zero_lt_succ _) ?_
              intro j first
              obtain rfl := Nat.le_zero.mp first
              rfl
          | false =>
              have answer : walkAnswer ev (some mask) i (some preds :: results) =
                  walkAnswer ev (some mask) (i + 1) results := by
                simp only [walkAnswer, known, triOfBool, Bool.false_eq_true, if_false]
              have skipped : evaluateFrom (activation ev) i (prg :: progs) =
                  evaluateFrom (activation ev) (i + 1) progs := by
                simp only [evaluateFrom, outcome, FilterSets.isTrue, Bool.false_eq_true, if_false]
              rw [answer, skipped]
              exact (induction (i + 1)).shift

theorem filter_index_reserved (k : Nat) (small : k < 32) :
    BitVec.ofNat 16 k ≠ filterDrop ∧ BitVec.ofNat 16 k ≠ filterUndecided := by
  have cases : ∀ k : Fin 32, BitVec.ofNat 16 k.val ≠ filterDrop ∧
      BitVec.ofNat 16 k.val ≠ filterUndecided := by decide
  exact cases ⟨k, small⟩

theorem filter_index_injective (i k : Nat) (first : i < 32) (second : k < 32)
    (same : BitVec.ofNat 16 i = BitVec.ofNat 16 k) : i = k := by
  have values := congrArg BitVec.toNat same
  simp only [BitVec.toNat_ofNat] at values
  omega

/-- Filters that denote truth values on the event are walked as they are evaluated. -/
theorem run_preds_agreement (cel : Cel) (lawful : cel.Lawful) (cfg : List Config) (s : FilterSet)
    (accepted : compile cel cfg = .ok s) (ev : Event)
    (all : ∀ e ∈ s.asts, ∃ value, Denotes cel ev e value) :
    Agreement 0 s.userspace (s.evaluate ev) (s.runPreds ev (some (s.verdictMask ev.attrs))) := by
  obtain ⟨es, results, c, from_⟩ := compile_spec cel cfg s accepted
  have agree := conj_all_agrees cel lawful ev c.atoms from_.atomBound es
    (by rw [← from_.asts]; exact all) s.progs from_.progs Compiler.empty interned_empty
    (by rw [from_.compiled])
  rw [from_.compiled] at agree
  have agreement := walk_agreement ev _ s.progs results agree 0
  rw [← from_.atoms, ← run_preds_flat from_, ← from_.userspace] at agreement
  exact agreement

theorem compiled_filter_marks (cel : Cel) (cfg : List Config) (s : FilterSet)
    (accepted : compile cel cfg = .ok s) :
    s.userspace.length = s.names.length ∧ s.names.length ≤ 32 := by
  obtain ⟨es, results, c, from_⟩ := compile_spec cel cfg s accepted
  have count : s.names.length = results.length := by
    rw [from_.names, List.length_map, from_.results_length]
  have bound : results.length ≤ 32 := by
    rw [from_.results_length]
    exact from_.filterBound
  exact ⟨by rw [from_.userspace, List.length_map, count], by omega⟩

theorem pushdown_refines_evaluate (cel : Cel) (lawful : cel.Lawful) (cfg : List Config)
    (s : FilterSet) (accepted : compile cel cfg = .ok s) (language : ∀ e ∈ s.asts, Fragment e)
    (ev : Event) (observed : Observed ev) :
    (∀ i, i < s.names.length →
      (s.runPreds ev (some (s.verdictMask ev.attrs)) = BitVec.ofNat 16 i ↔
        s.evaluate ev = some i ∧ ∀ j ≤ i, s.userspace[j]? = some false)) ∧
    (s.runPreds ev (some (s.verdictMask ev.attrs)) = filterDrop ↔
      s.evaluate ev = none ∧ ∀ u ∈ s.userspace, u = false) ∧
    (s.runPreds ev (some (s.verdictMask ev.attrs)) = filterUndecided ↔
      ∃ j, s.userspace[j]? = some true ∧ ∀ i, s.evaluate ev = some i → j ≤ i) := by
  have agreement := run_preds_agreement cel lawful cfg s accepted ev
    fun e member => fragment_denotes cel lawful ev observed e (language e member)
  obtain ⟨marks, bound⟩ := compiled_filter_marks cel cfg s accepted
  rw [← marks]
  generalize s.evaluate ev = outcome at agreement ⊢
  generalize s.runPreds ev (some (s.verdictMask ev.attrs)) = answer at agreement ⊢
  cases agreement with
  | matched k inside pushed =>
      obtain ⟨notDrop, notUndecided⟩ := filter_index_reserved (0 + k) (by omega)
      refine ⟨?_, ⟨fun same => absurd same notDrop, by simp⟩, ?_⟩
      · intro i small
        constructor
        · intro same
          obtain rfl := filter_index_injective _ i (by omega) (by omega) same
          rw [Nat.zero_add]
          exact ⟨rfl, pushed⟩
        · rintro ⟨same, _⟩
          rw [Option.some.inj same]
      · refine ⟨fun same => absurd same notUndecided, ?_⟩
        rintro ⟨j, marked, first⟩
        rw [pushed j (by simpa using first _ rfl)] at marked
        cases marked
  | dropped pushed =>
      refine ⟨?_, by simpa using pushed, ?_⟩
      · intro i small
        exact ⟨fun same => absurd same.symm (filter_index_reserved i (by omega)).1, by simp⟩
      · refine ⟨fun same => absurd same (by decide), ?_⟩
        rintro ⟨j, marked, _⟩
        exact absurd (pushed true (List.mem_of_getElem? marked)) (by decide)
  | undecided _ j marked first =>
      refine ⟨?_, ?_, ?_⟩
      · intro i small
        refine ⟨fun same => absurd same.symm (filter_index_reserved i (by omega)).2, ?_⟩
        rintro ⟨found, pushed⟩
        rw [pushed j (by simpa using first i found)] at marked
        cases marked
      · refine ⟨fun same => absurd same (by decide), ?_⟩
        rintro ⟨_, pushed⟩
        exact absurd (pushed true (List.mem_of_getElem? marked)) (by decide)
      · refine ⟨fun _ => ⟨j, marked, ?_⟩, fun _ => rfl⟩
        intro i found
        simpa using first i found

/-- `ko_rtt_us > 100 && ko_namespace == "prod"`, as CEL parses it. -/
def slowProd : Expr :=
  .call .logicalAnd
    [.call .greater [.ident "ko_rtt_us", .literal (.int 100)],
      .call .equals [.ident "ko_namespace", .literal (.string "prod")]]

def slowProdCel : Cel := referenceCel
  [("ko_rtt_us > 100 && ko_namespace == \"prod\"", slowProd),
    ("!(ko_rtt_us > 100 && ko_namespace == \"prod\")", .call .logicalNot [slowProd])]

def slowProdFilters : List Config :=
  [{ name := "slow", expr := "ko_rtt_us > 100 && ko_namespace == \"prod\"" }]

def slowProdPreds : List Pred :=
  [{ kind := predCmp, a := fldRTT, b := cmpGt, val := 100 }, { kind := predAttr, a := 0 }]

def slowProdSet : FilterSet where
  names := ["slow"]
  asts := [slowProd]
  progs := [evalExpr slowProd]
  atoms := [{ field := attrNamespace, op := attrEq, values := ["prod"] }]
  preds := [slowProdPreds]
  flat := slowProdPreds ++ [endMarker 0 false]
  userspace := [false]

def notSlowProdFilters : List Config :=
  [{ name := "other", expr := "!(ko_rtt_us > 100 && ko_namespace == \"prod\")" }]

def notSlowProdSet : FilterSet where
  names := ["other"]
  asts := [.call .logicalNot [slowProd]]
  progs := [evalExpr (.call .logicalNot [slowProd])]
  atoms := []
  preds := [[]]
  flat := [endMarker 0 true]
  userspace := [true]

def prodEvent (rttUS : U32) : Event :=
  { type := evtConnClosed, namespaceName := "prod", rttUS := rttUS }

theorem slow_prod_fragment : Fragment slowProd :=
  .logicalAnd _ _
    (.leaf _ (.stats .greater "ko_rtt_us" fldRTT 100 rfl (by decide) (by decide)))
    (.leaf _ (.attr .equals "ko_namespace" attrNamespace "prod" (Or.inl rfl) (by decide)))

theorem prod_event_observed (rttUS : U32) : Observed (prodEvent rttUS) where
  type := Or.inr (Or.inl rfl)
  life := show (0 : U64).toNat < 2 ^ 63 by decide
  localIP := Or.inl rfl
  remoteIP := Or.inl rfl

theorem pushdown_refines_evaluate_slow_prod :
    compile slowProdCel slowProdFilters = .ok slowProdSet ∧
      slowProdSet.runPreds (prodEvent 250)
        (some (slowProdSet.verdictMask (prodEvent 250).attrs)) = 0 := by
  have refines := pushdown_refines_evaluate slowProdCel (reference_lawful _) slowProdFilters
    slowProdSet rfl (by simp [slowProdSet, slow_prod_fragment]) (prodEvent 250)
    (prod_event_observed 250)
  exact ⟨rfl, (refines.1 0 (by decide)).mpr ⟨by decide, by decide⟩⟩

/-- A negated conjunction matches in CEL but is left to user space by the stream. -/
theorem pushdown_leaves_negated_conjunction :
    compile slowProdCel notSlowProdFilters = .ok notSlowProdSet ∧
      (∀ e ∈ notSlowProdSet.asts, Fragment e) ∧ Observed (prodEvent 50) ∧
      ¬(notSlowProdSet.runPreds (prodEvent 50)
          (some (notSlowProdSet.verdictMask (prodEvent 50).attrs)) = 0 ↔
        notSlowProdSet.evaluate (prodEvent 50) = some 0) := by
  refine ⟨rfl, ?_, prod_event_observed 50, by decide⟩
  simp [notSlowProdSet, Fragment.logicalNot, slow_prod_fragment]

end KoAgent.PushdownRefinement
