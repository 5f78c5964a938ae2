import KoAgent.CidrSets
import KoAgent.FilterSets

/-!
# The shape of compiled filters

`conj_induction` is the one induction over the mutual recursion of `conj` and
`negConj`: a property of compiler actions that refusal, the leaves and the
sequencing of two conjuncts preserve holds of every expression. The first use of
it says that compiled predicates are tests and that their atoms exist.
-/

namespace KoAgent.CompilerShape

open KoAgent.FilterModel KoAgent.CelExpression KoAgent.FilterCompiler KoAgent.FilterSets
open KoAgent.PredicateMachine hiding cmpField

set_option autoImplicit false

abbrev Action := Compiler → Compiled

def refuse : Action := fun c => (none, c)

/-- Two conjuncts in order; the second runs only when the first is accepted. -/
def andThen (first second : Action) : Action := fun c =>
  match first c with
  | (none, c) => (none, c)
  | (some left, c) =>
      match second c with
      | (none, c) => (none, c)
      | (some right, c) => (some (left ++ right), c)

theorem conj_and (l r : Expr) (rest : List Expr) :
    conj (.call .logicalAnd (l :: r :: rest)) = andThen (conj l) (conj r) := by
  funext c
  rw [conj]
  rfl

section Induction

variable (Holds : Action → Prop)

structure Closed : Prop where
  refuse : Holds refuse
  andThen : ∀ first second, Holds first → Holds second → Holds (andThen first second)
  cmp : ∀ args kind, Holds (cmpPreds args kind)
  inList : ∀ args, Holds (inPreds args)
  negIn : ∀ args, Holds (negInPreds args)
  ipIn : ∀ args neg, Holds fun c => (ipInPreds args neg, c)

variable {Holds}

theorem conj_induction (closed : Closed Holds) : ∀ e, Holds (conj e) ∧ Holds (negConj e)
  | .ident _ => ⟨closed.refuse, closed.refuse⟩
  | .literal _ => ⟨closed.refuse, closed.refuse⟩
  | .list _ => ⟨closed.refuse, closed.refuse⟩
  | .other _ => ⟨closed.refuse, closed.refuse⟩
  | .call .logicalAnd (l :: r :: rest) => by
      have left := conj_induction closed l
      have right := conj_induction closed r
      rw [conj_and]
      exact ⟨closed.andThen _ _ left.1 right.1, closed.refuse⟩
  | .call .logicalAnd [] => ⟨closed.refuse, closed.refuse⟩
  | .call .logicalAnd [_] => ⟨closed.refuse, closed.refuse⟩
  | .call .logicalNot [] => ⟨closed.refuse, closed.refuse⟩
  | .call .logicalNot (e :: _) => by
      have inner := conj_induction closed e
      exact ⟨inner.2, inner.1⟩
  | .call .inList args => ⟨closed.inList args, closed.negIn args⟩
  | .call .ipIn args => ⟨closed.ipIn args 0, closed.ipIn args 1⟩
  | .call .equals args => ⟨closed.cmp args _, closed.cmp args _⟩
  | .call .notEquals args => ⟨closed.cmp args _, closed.cmp args _⟩
  | .call .less args => ⟨closed.cmp args _, closed.cmp args _⟩
  | .call .lessEquals args => ⟨closed.cmp args _, closed.cmp args _⟩
  | .call .greater args => ⟨closed.cmp args _, closed.cmp args _⟩
  | .call .greaterEquals args => ⟨closed.cmp args _, closed.cmp args _⟩
  | .call (.other _) _ => ⟨closed.refuse, closed.refuse⟩

end Induction

/-- A predicate that a table of `count` atoms can serve. -/
def PredOk (count : Nat) (p : Pred) : Prop := IsTest p ∧ (p.kind = predAttr → p.a.toNat < count)

def Bounded (c : Compiler) : Prop := ∀ key id, c.atomIdx key = some id → id < c.atoms.length

/-- An action keeps the index inside the table, only extends the table, and
yields test predicates whose atoms exist. -/
def WellFormed (action : Action) : Prop := ∀ c, Bounded c →
  Bounded (action c).2 ∧ c.atoms <+: (action c).2.atoms ∧
    ∀ preds, (action c).1 = some preds → ∀ p ∈ preds, PredOk (action c).2.atoms.length p

theorem pred_ok_mono (small large : Nat) (order : small ≤ large) (p : Pred)
    (ok : PredOk small p) : PredOk large p :=
  ⟨ok.1, fun kind => Nat.lt_of_lt_of_le (ok.2 kind) order⟩

theorem attr_pred_well_formed (field op : U8) (values : List String) (neg : U8) (c : Compiler)
    (bounded : Bounded c) :
    Bounded (attrPred field op values neg c).2 ∧
      c.atoms <+: (attrPred field op values neg c).2.atoms ∧
      PredOk (attrPred field op values neg c).2.atoms.length (attrPred field op values neg c).1 := by
  have reduced : ∀ id count, id < count → (BitVec.ofNat 8 id).toNat < count := by
    intro id count inside
    rw [BitVec.toNat_ofNat]
    exact Nat.lt_of_le_of_lt (Nat.mod_le _ _) inside
  cases found : c.atomIdx { field := field, op := op, vals := sprint values } with
  | some id =>
      simp only [attrPred, found]
      exact ⟨bounded, List.prefix_rfl, Or.inr (Or.inr rfl), fun _ => reduced _ _ (bounded _ _ found)⟩
  | none =>
      simp only [attrPred, found]
      refine ⟨?_, List.prefix_append _ _, Or.inr (Or.inr rfl), fun _ => reduced _ _ (by simp)⟩
      intro key id lookup
      dsimp only at lookup ⊢
      rw [List.length_append, List.length_singleton]
      split_ifs at lookup
      · obtain rfl := Option.some.inj lookup
        omega
      · have := bounded key id lookup
        omega

theorem refuse_well_formed : WellFormed refuse := by
  intro c bounded
  exact ⟨bounded, List.prefix_rfl, by simp [refuse]⟩

theorem pure_well_formed (result : Option (List Pred))
    (tests : ∀ preds, result = some preds → ∀ p ∈ preds, IsTest p ∧ p.kind ≠ predAttr) :
    WellFormed fun c => (result, c) := by
  intro c bounded
  refine ⟨bounded, List.prefix_rfl, ?_⟩
  intro preds same p member
  obtain ⟨test, other⟩ := tests preds same p member
  exact ⟨test, fun kind => absurd kind other⟩

theorem attr_pred_one_well_formed (field op : U8) (values : List String) (neg : U8) :
    WellFormed (attrPredOne field op values neg) := by
  intro c bounded
  obtain ⟨next, grown, ok⟩ := attr_pred_well_formed field op values neg c bounded
  refine ⟨next, grown, ?_⟩
  intro preds same p member
  obtain rfl := Option.some.inj same
  rw [List.mem_singleton.mp member]
  exact ok

theorem and_then_well_formed (first second : Action) (left : WellFormed first)
    (right : WellFormed second) : WellFormed (andThen first second) := by
  intro c bounded
  obtain ⟨firstBounded, firstGrown, firstOk⟩ := left c bounded
  unfold andThen
  rcases firstRun : first c with ⟨result, middle⟩
  rw [firstRun] at firstBounded firstGrown firstOk
  cases result with
  | none => exact ⟨firstBounded, firstGrown, by simp⟩
  | some leftPreds =>
      obtain ⟨secondBounded, secondGrown, secondOk⟩ := right middle firstBounded
      dsimp only
      rcases secondRun : second middle with ⟨result, last⟩
      rw [secondRun] at secondBounded secondGrown secondOk
      cases result with
      | none => exact ⟨secondBounded, firstGrown.trans secondGrown, by simp⟩
      | some rightPreds =>
          refine ⟨secondBounded, firstGrown.trans secondGrown, ?_⟩
          intro preds same p member
          obtain rfl := Option.some.inj same
          rcases List.mem_append.mp member with early | late
          · exact pred_ok_mono _ _ secondGrown.length_le p (firstOk leftPreds rfl p early)
          · exact secondOk rightPreds rfl p late

theorem neg_attr_preds_well_formed (field : U8) (values : List String) (c : Compiler)
    (bounded : Bounded c) :
    Bounded (negAttrPreds field values c).2 ∧
      c.atoms <+: (negAttrPreds field values c).2.atoms ∧
      ∀ p ∈ (negAttrPreds field values c).1,
        PredOk (negAttrPreds field values c).2.atoms.length p := by
  induction values generalizing c with
  | nil => exact ⟨bounded, List.prefix_rfl, by simp [negAttrPreds]⟩
  | cons value rest induction =>
      obtain ⟨next, grown, ok⟩ := attr_pred_well_formed field attrEq [value] 1 c bounded
      obtain ⟨last, further, others⟩ := induction _ next
      refine ⟨last, grown.trans further, ?_⟩
      intro p member
      rcases List.mem_cons.mp member with rfl | later
      · exact pred_ok_mono _ _ further.length_le _ ok
      · exact others p later

theorem cmp_ne_attr : predCmp ≠ predAttr := by decide

theorem one_cmp_well_formed (field op : U8) (value : U64) :
    WellFormed fun c => (some [{ kind := predCmp, a := field, b := op, val := value }], c) := by
  apply pure_well_formed
  intro preds same p member
  obtain rfl := Option.some.inj same
  rw [List.mem_singleton.mp member]
  exact ⟨Or.inl rfl, cmp_ne_attr⟩

theorem cmp_field_well_formed (name : String) (kind : U8) (v : Literal) :
    WellFormed (cmpField name kind v) := by
  unfold cmpField
  cases statsFields name with
  | some f =>
      cases v with
      | int value => exact one_cmp_well_formed f kind value
      | _ => exact refuse_well_formed
  | none =>
      cases attrFields name with
      | none => exact refuse_well_formed
      | some f =>
          cases v with
          | string value =>
              dsimp only
              by_cases eq : kind = cmpEq
              · simp only [eq, if_true]
                exact attr_pred_one_well_formed f attrEq [value] 0
              · simp only [eq, if_false]
                by_cases neq : kind = cmpNeq
                · simp only [neq, if_true]
                  exact attr_pred_one_well_formed f attrEq [value] 1
                · simp only [neq, if_false]
                  exact refuse_well_formed
          | _ => exact refuse_well_formed

theorem type_preds_tests (kind : U8) (bit : U64) (p : Pred) (member : p ∈ typePreds kind bit) :
    IsTest p ∧ p.kind ≠ predAttr := by
  unfold typePreds at member
  split_ifs at member
  · rw [List.mem_singleton.mp member]
    exact ⟨Or.inl rfl, cmp_ne_attr⟩
  · rw [List.mem_singleton.mp member]
    exact ⟨Or.inl rfl, cmp_ne_attr⟩
  · cases member

theorem cmp_operand_well_formed (name : String) (kind : U8) (operand : Expr) :
    WellFormed (cmpOperand name kind operand) := by
  unfold cmpOperand
  split
  · next bit _ _ =>
      apply pure_well_formed
      intro preds same p member
      obtain rfl := Option.some.inj same
      exact type_preds_tests kind bit p member
  · cases literalOf operand with
    | none => exact refuse_well_formed
    | some v => exact cmp_field_well_formed name kind v

theorem cmp_preds_well_formed (args : List Expr) (kind : U8) : WellFormed (cmpPreds args kind) := by
  unfold cmpPreds
  split
  · next left right =>
      cases identOf left with
      | some name => exact cmp_operand_well_formed name kind right
      | none =>
          cases identOf right with
          | some name => exact cmp_operand_well_formed name (flipCmp kind) left
          | none => exact refuse_well_formed
  · exact refuse_well_formed

theorem in_preds_well_formed (args : List Expr) : WellFormed (inPreds args) := by
  unfold inPreds
  split
  · next left right =>
      cases identOf left with
      | none => exact refuse_well_formed
      | some name =>
          dsimp only
          by_cases typed : name = "ko_type"
          · simp only [typed, if_true]
            cases typeMaskOf right with
            | none => exact refuse_well_formed
            | some mask => exact one_cmp_well_formed fldType cmpIn mask
          · simp only [typed, if_false]
            cases attrFields name with
            | none => exact refuse_well_formed
            | some f =>
                dsimp only
                split
                · exact refuse_well_formed
                · exact refuse_well_formed
                · next values _ _ => exact attr_pred_one_well_formed f attrIn values 0
  · exact refuse_well_formed

theorem neg_in_preds_well_formed (args : List Expr) : WellFormed (negInPreds args) := by
  unfold negInPreds
  split
  · next left right =>
      cases identOf left with
      | none => exact refuse_well_formed
      | some name =>
          dsimp only
          by_cases typed : name = "ko_type"
          · simp only [typed, if_true]
            cases typeMaskOf right with
            | none => exact refuse_well_formed
            | some mask => exact one_cmp_well_formed fldType cmpNotIn mask
          · simp only [typed, if_false]
            cases attrFields name with
            | none => exact refuse_well_formed
            | some f =>
                dsimp only
                split
                · exact refuse_well_formed
                · exact refuse_well_formed
                · next values _ _ =>
                    intro c bounded
                    obtain ⟨last, grown, others⟩ := neg_attr_preds_well_formed f values c bounded
                    refine ⟨last, grown, ?_⟩
                    intro preds same
                    obtain rfl := Option.some.inj same
                    exact others
  · exact refuse_well_formed

theorem ip_in_preds_kind (args : List Expr) (neg : U8) (preds : List Pred)
    (built : ipInPreds args neg = some preds) : ∃ p, preds = [p] ∧ p.kind = predIPSet := by
  unfold ipInPreds at built
  split at built
  · split at built
    · cases built
    · split at built
      · cases built
      · split at built
        · cases built
        · split_ifs at built
          obtain rfl := Option.some.inj built
          exact ⟨_, rfl, rfl⟩
        · obtain ⟨p, made, rfl⟩ := Option.map_eq_some_iff.mp built
          exact ⟨p, rfl, (CidrSets.ip_set_pred_spec _ _ _ _ made).2.1⟩
  · cases built

theorem ip_in_preds_well_formed (args : List Expr) (neg : U8) :
    WellFormed fun c => (ipInPreds args neg, c) := by
  apply pure_well_formed
  intro preds built p member
  obtain ⟨only, rfl, kind⟩ := ip_in_preds_kind args neg preds built
  rw [List.mem_singleton.mp member]
  exact ⟨Or.inr (Or.inl kind), by rw [kind]; decide⟩

theorem conj_well_formed (e : Expr) : WellFormed (conj e) :=
  (conj_induction
    { refuse := refuse_well_formed
      andThen := and_then_well_formed
      cmp := cmp_preds_well_formed
      inList := in_preds_well_formed
      negIn := neg_in_preds_well_formed
      ipIn := ip_in_preds_well_formed } e).1

end KoAgent.CompilerShape
