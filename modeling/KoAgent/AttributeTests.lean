import KoAgent.ProgramSize
import KoAgent.PushdownMeaning

/-!
# The attribute tests of an expression

`reached` lists the attribute tests that `conj` interns on an expression, in the
order of the calls and up to the sub-expression that it refuses. The list is read
off the syntax: what a compilation does to the shared atom table is then the
interning of that list, whatever state the table is in.
-/

namespace KoAgent.AttributeTests

open KoAgent.FilterModel KoAgent.CelExpression KoAgent.FilterCompiler KoAgent.FilterSets
open KoAgent.AtomInterning KoAgent.CompilerShape KoAgent.CompiledSets KoAgent.ProgramSize
open KoAgent.PushdownMeaning
open KoAgent.PredicateMachine hiding cmpField

set_option autoImplicit false

/-- A test of an attribute field; `neg` is the polarity of its predicate. -/
structure AttrTest where
  atom : Atom
  neg : U8
  deriving DecidableEq

def AttrTest.key (t : AttrTest) : AtomKey := keyOf t.atom

def equalTest (field : U8) (value : String) (neg : U8) : AttrTest :=
  { atom := { field := field, op := attrEq, values := [value] }, neg := neg }

def memberTest (field : U8) (values : List String) : AttrTest :=
  { atom := { field := field, op := attrIn, values := values }, neg := 0 }

def operandReached (name : String) (kind : U8) (operand : Expr) : List AttrTest :=
  match attrFields name, literalOf operand with
  | some field, some (.string value) =>
      if kind = cmpEq then [equalTest field value 0]
      else if kind = cmpNeq then [equalTest field value 1]
      else []
  | _, _ => []

def cmpReached (args : List Expr) (kind : U8) : List AttrTest :=
  match args with
  | [left, right] =>
      match identOf left with
      | some name => operandReached name kind right
      | none => (identOf right).elim [] fun name => operandReached name (flipCmp kind) left
  | _ => []

def inReached (args : List Expr) (negated : Bool) : List AttrTest :=
  match args with
  | [.ident name, right] =>
      match attrFields name, listOfStrings right with
      | some field, .ok values =>
          if values = [] then []
          else if negated then values.map fun value => equalTest field value 1
          else [memberTest field values]
      | _, _ => []
  | _ => []

mutual

def reached : Expr → List AttrTest
  | .call .logicalAnd (l :: r :: _) =>
      reached l ++ if (predCount l).isSome then reached r else []
  | .call .logicalNot (e :: _) => negReached e
  | .call .inList args => inReached args false
  | .call .ipIn _ => []
  | .call function args => if isComparison function then cmpReached args (cmpKind function) else []
  | _ => []

def negReached : Expr → List AttrTest
  | .call .logicalNot (e :: _) => reached e
  | .call .inList args => inReached args true
  | .call .ipIn _ => []
  | .call function args =>
      if isComparison function then cmpReached args (flipCmp (cmpKind function)) else []
  | _ => []

end

def internTest (t : AttrTest) (c : Compiler) : Pred × Compiler :=
  attrPred t.atom.field t.atom.op t.atom.values t.neg c

def internAll : List AttrTest → Compiler → List Pred × Compiler
  | [], c => ([], c)
  | t :: rest, c =>
      let first := internTest t c
      let others := internAll rest first.2
      (first.1 :: others.1, others.2)

def attrPreds (preds : List Pred) : List Pred := preds.filter fun p => p.kind == predAttr

/-- The action interns exactly these tests, also when it refuses, and its attribute
predicates are theirs. -/
def Interns (tests : List AttrTest) (action : Action) : Prop := ∀ c,
  (action c).2 = (internAll tests c).2 ∧
    ∀ preds, (action c).1 = some preds → attrPreds preds = (internAll tests c).1

theorem intern_all_append (first second : List AttrTest) (c : Compiler) :
    internAll (first ++ second) c =
      ((internAll first c).1 ++ (internAll second (internAll first c).2).1,
        (internAll second (internAll first c).2).2) := by
  induction first generalizing c with
  | nil => rfl
  | cons t rest induction => simp only [List.cons_append, internAll, induction]

theorem attr_preds_append (left right : List Pred) :
    attrPreds (left ++ right) = attrPreds left ++ attrPreds right := by
  simp [attrPreds]

theorem attr_preds_nil (preds : List Pred) (none_ : ∀ p ∈ preds, p.kind ≠ predAttr) :
    attrPreds preds = [] := by
  simpa [attrPreds] using none_

theorem fixed_interns (result : Option (List Pred))
    (none_ : ∀ preds, result = some preds → ∀ p ∈ preds, p.kind ≠ predAttr) :
    Interns [] fun c => (result, c) := by
  intro c
  exact ⟨rfl, fun preds same => attr_preds_nil preds (none_ preds same)⟩

theorem refuse_interns : Interns [] refuse := fixed_interns none (by simp)

theorem one_cmp_interns (field kind : U8) (value : U64) :
    Interns [] fun c => (some [{ kind := predCmp, a := field, b := kind, val := value }], c) := by
  apply fixed_interns
  intro preds same p member
  obtain rfl := Option.some.inj same
  rw [List.mem_singleton.mp member]
  exact cmp_ne_attr

theorem attr_pred_kind (field op : U8) (values : List String) (neg : U8) (c : Compiler) :
    (attrPred field op values neg c).1.kind = predAttr := by
  unfold attrPred
  dsimp only
  split <;> rfl

theorem attr_pred_one_interns (t : AttrTest) :
    Interns [t] (attrPredOne t.atom.field t.atom.op t.atom.values t.neg) := by
  intro c
  refine ⟨rfl, ?_⟩
  intro preds same
  obtain rfl := Option.some.inj same
  simp [attrPreds, attr_pred_kind, internAll, internTest]

theorem neg_attr_preds_interns (field : U8) (values : List String) (c : Compiler) :
    negAttrPreds field values c = internAll (values.map fun value => equalTest field value 1) c ∧
      attrPreds (negAttrPreds field values c).1 = (negAttrPreds field values c).1 := by
  induction values generalizing c with
  | nil => exact ⟨rfl, rfl⟩
  | cons value rest induction =>
      obtain ⟨same, attrs⟩ := induction (attrPred field attrEq [value] 1 c).2
      constructor
      · simp only [negAttrPreds, List.map_cons, internAll, same]
        rfl
      · simp only [negAttrPreds, attrPreds, List.filter_cons, attr_pred_kind, beq_self_eq_true, if_true]
        rw [← attrPreds, attrs]

/-- A refused conjunct ends the interning; its right sibling is never compiled. -/
theorem and_then_interns (first second : Action) (left right : List AttrTest) (count : Option Nat)
    (one : Interns left first) (two : Interns right second) (sized : Sized count first) :
    Interns (left ++ if count.isSome then right else []) (andThen first second) := by
  intro c
  obtain ⟨firstState, firstPreds⟩ := one c
  have size := sized c
  rcases run : first c with ⟨leftResult, middle⟩
  rw [run] at firstState firstPreds size
  dsimp only at firstState
  rw [intern_all_append, ← firstState]
  cases leftResult with
  | none =>
      obtain rfl : none = count := size
      simp only [andThen, run]
      exact ⟨rfl, by simp⟩
  | some leftPreds =>
      obtain rfl : some leftPreds.length = count := size
      obtain ⟨secondState, secondPreds⟩ := two middle
      rcases next : second middle with ⟨rightResult, last⟩
      rw [next] at secondState secondPreds
      cases rightResult with
      | none =>
          simp only [andThen, run, next]
          exact ⟨secondState, by simp⟩
      | some rightPreds =>
          simp only [andThen, run, next]
          refine ⟨secondState, ?_⟩
          intro preds same
          obtain rfl := Option.some.inj same
          rw [attr_preds_append, firstPreds leftPreds rfl, secondPreds rightPreds rfl]
          rfl

theorem operand_interns (name : String) (kind : U8) (operand : Expr) :
    Interns (operandReached name kind operand) (cmpOperand name kind operand) := by
  cases known : attrFields name with
  | none =>
      have nothing : operandReached name kind operand = [] := by simp [operandReached, known]
      rw [nothing]
      unfold cmpOperand
      split
      · next bit _ _ =>
          apply fixed_interns
          intro preds same p member
          obtain rfl := Option.some.inj same
          exact (type_preds_tests kind bit p member).2
      · cases literalOf operand with
        | none => exact refuse_interns
        | some v =>
            unfold FilterCompiler.cmpField
            rw [known]
            cases statsFields name with
            | none => exact refuse_interns
            | some f =>
                cases v with
                | int value => exact one_cmp_interns f kind value
                | _ => exact refuse_interns
  | some field =>
      obtain ⟨other, stats⟩ := attr_not_type name field known
      have plain : cmpOperand name kind operand = fun c =>
          (literalOf operand).elim (none, c) fun v => FilterCompiler.cmpField name kind v c := by
        funext c
        unfold cmpOperand
        rw [decide_eq_false other]
        cases typeBitOf operand <;> cases literalOf operand <;> rfl
      rw [plain, operandReached, known]
      cases literalOf operand with
      | none => exact refuse_interns
      | some v =>
          dsimp only [Option.elim]
          unfold FilterCompiler.cmpField
          rw [stats, known]
          cases v with
          | string value =>
              dsimp only
              split_ifs with equal unequal
              · exact attr_pred_one_interns (equalTest field value 0)
              · exact attr_pred_one_interns (equalTest field value 1)
              · exact refuse_interns
          | _ => exact refuse_interns

theorem cmp_preds_interns (args : List Expr) (kind : U8) :
    Interns (cmpReached args kind) (cmpPreds args kind) := by
  unfold cmpReached cmpPreds
  rcases args with _ | ⟨left, _ | ⟨right, _ | ⟨third, rest⟩⟩⟩
  · exact refuse_interns
  · exact refuse_interns
  · dsimp only
    cases identOf left with
    | some name => exact operand_interns name kind right
    | none =>
        cases identOf right with
        | some name => exact operand_interns name (flipCmp kind) left
        | none => exact refuse_interns
  · exact refuse_interns

theorem in_preds_interns (args : List Expr) :
    Interns (inReached args false) (inPreds args) ∧
      Interns (inReached args true) (negInPreds args) := by
  rcases args with _ | ⟨left, _ | ⟨right, _ | ⟨third, rest⟩⟩⟩
  · exact ⟨refuse_interns, refuse_interns⟩
  · cases left <;> exact ⟨refuse_interns, refuse_interns⟩
  · cases left with
    | ident name =>
        cases known : attrFields name with
        | none =>
            simp only [inReached, known]
            by_cases typed : name = "ko_type"
            · subst typed
              unfold inPreds negInPreds
              cases mask : typeMaskOf right with
              | none => simp only [identOf, if_true, mask]; exact ⟨refuse_interns, refuse_interns⟩
              | some bits =>
                  simp only [identOf, if_true, mask]
                  exact ⟨one_cmp_interns _ _ _, one_cmp_interns _ _ _⟩
            · unfold inPreds negInPreds
              simp only [identOf, typed, if_false, known]
              exact ⟨refuse_interns, refuse_interns⟩
        | some field =>
            obtain ⟨other, _⟩ := attr_not_type name field known
            unfold inPreds negInPreds inReached
            simp only [identOf, other, if_false, known]
            rcases listOfStrings right with text | _ | ⟨value, values⟩
            · exact ⟨refuse_interns, refuse_interns⟩
            · exact ⟨refuse_interns, refuse_interns⟩
            · refine ⟨attr_pred_one_interns (memberTest field (value :: values)), ?_⟩
              intro c
              obtain ⟨same, attrs⟩ := neg_attr_preds_interns field (value :: values) c
              refine ⟨congrArg Prod.snd same, ?_⟩
              intro preds equal
              obtain rfl := Option.some.inj equal
              exact attrs.trans (congrArg Prod.fst same)
    | _ => exact ⟨refuse_interns, refuse_interns⟩
  · cases left <;> exact ⟨refuse_interns, refuse_interns⟩

theorem ip_in_preds_interns (args : List Expr) (neg : U8) :
    Interns [] fun c => (ipInPreds args neg, c) := by
  apply fixed_interns
  intro preds built p member
  obtain ⟨only, rfl, kind⟩ := ip_in_preds_kind args neg preds built
  rw [List.mem_singleton.mp member, kind]
  decide

/-- Compiling an expression interns the tests it reaches, by induction over the two
mutually recursive compilers. -/
theorem conj_interns : ∀ e, Interns (reached e) (conj e) ∧ Interns (negReached e) (negConj e)
  | .ident _ => ⟨refuse_interns, refuse_interns⟩
  | .literal _ => ⟨refuse_interns, refuse_interns⟩
  | .list _ => ⟨refuse_interns, refuse_interns⟩
  | .other _ => ⟨refuse_interns, refuse_interns⟩
  | .call .logicalAnd (l :: r :: rest) => by
      have left := (conj_interns l).1
      have right := (conj_interns r).1
      rw [conj_and, reached]
      exact ⟨and_then_interns _ _ _ _ _ left right (conj_sized l).1, refuse_interns⟩
  | .call .logicalAnd [] => ⟨refuse_interns, refuse_interns⟩
  | .call .logicalAnd [_] => ⟨refuse_interns, refuse_interns⟩
  | .call .logicalNot [] => ⟨refuse_interns, refuse_interns⟩
  | .call .logicalNot (e :: _) => by
      have inner := conj_interns e
      exact ⟨inner.2, inner.1⟩
  | .call .inList args => in_preds_interns args
  | .call .ipIn args => ⟨ip_in_preds_interns args 0, ip_in_preds_interns args 1⟩
  | .call .equals args => ⟨cmp_preds_interns args _, cmp_preds_interns args _⟩
  | .call .notEquals args => ⟨cmp_preds_interns args _, cmp_preds_interns args _⟩
  | .call .less args => ⟨cmp_preds_interns args _, cmp_preds_interns args _⟩
  | .call .lessEquals args => ⟨cmp_preds_interns args _, cmp_preds_interns args _⟩
  | .call .greater args => ⟨cmp_preds_interns args _, cmp_preds_interns args _⟩
  | .call .greaterEquals args => ⟨cmp_preds_interns args _, cmp_preds_interns args _⟩
  | .call (.other _) _ => ⟨refuse_interns, refuse_interns⟩

def attrField (field : U8) : Prop :=
  field = attrNamespace ∨ field = attrContainer ∨ field = attrPod

/-- The tests that conj makes: an equality with one string, or a list test. -/
structure Shaped (t : AttrTest) : Prop where
  field : attrField t.atom.field
  values : (t.atom.op = attrEq ∧ ∃ value, t.atom.values = [value]) ∨ t.atom.op = attrIn

theorem attr_fields_field (name : String) (field : U8) (known : attrFields name = some field) :
    attrField field := by
  unfold attrFields at known
  split_ifs at known
  all_goals obtain rfl := Option.some.inj known
  · exact Or.inl rfl
  · exact Or.inr (Or.inl rfl)
  · exact Or.inr (Or.inr rfl)

theorem equal_test_shaped (field : U8) (value : String) (neg : U8) (known : attrField field) :
    Shaped (equalTest field value neg) := ⟨known, Or.inl ⟨rfl, value, rfl⟩⟩

theorem operand_reached_shaped (name : String) (kind : U8) (operand : Expr) (t : AttrTest)
    (member : t ∈ operandReached name kind operand) : Shaped t := by
  unfold operandReached at member
  split at member
  · next field value known _ =>
      have listed := attr_fields_field name field known
      split_ifs at member
      · rw [List.mem_singleton.mp member]
        exact equal_test_shaped field value 0 listed
      · rw [List.mem_singleton.mp member]
        exact equal_test_shaped field value 1 listed
      · cases member
  · cases member

theorem cmp_reached_shaped (args : List Expr) (kind : U8) (t : AttrTest)
    (member : t ∈ cmpReached args kind) : Shaped t := by
  unfold cmpReached at member
  split at member
  · next left right =>
      split at member
      · exact operand_reached_shaped _ _ _ t member
      · cases name : identOf right with
        | none =>
            rw [name] at member
            cases member
        | some field =>
            rw [name] at member
            exact operand_reached_shaped _ _ _ t member
  · cases member

theorem in_reached_shaped (args : List Expr) (negated : Bool) (t : AttrTest)
    (member : t ∈ inReached args negated) : Shaped t := by
  unfold inReached at member
  split at member
  · split at member
    · next field values known _ =>
        have listed := attr_fields_field _ field known
        split_ifs at member
        · cases member
        · obtain ⟨value, _, rfl⟩ := List.mem_map.mp member
          exact equal_test_shaped field value 1 listed
        · rw [List.mem_singleton.mp member]
          exact ⟨listed, Or.inr rfl⟩
    · cases member
  · cases member

def AllShaped (tests : List AttrTest) : Prop := ∀ t ∈ tests, Shaped t

theorem nil_shaped : AllShaped [] := by
  intro t member
  cases member

theorem reached_shaped : ∀ e, AllShaped (reached e) ∧ AllShaped (negReached e)
  | .ident _ => ⟨nil_shaped, nil_shaped⟩
  | .literal _ => ⟨nil_shaped, nil_shaped⟩
  | .list _ => ⟨nil_shaped, nil_shaped⟩
  | .other _ => ⟨nil_shaped, nil_shaped⟩
  | .call .logicalAnd (l :: r :: rest) => by
      have left := (reached_shaped l).1
      have right := (reached_shaped r).1
      refine ⟨?_, nil_shaped⟩
      intro t member
      rw [reached] at member
      rcases List.mem_append.mp member with early | late
      · exact left t early
      · split_ifs at late
        · exact right t late
        · cases late
  | .call .logicalAnd [] => ⟨nil_shaped, nil_shaped⟩
  | .call .logicalAnd [_] => ⟨nil_shaped, nil_shaped⟩
  | .call .logicalNot [] => ⟨nil_shaped, nil_shaped⟩
  | .call .logicalNot (e :: _) => by
      have inner := reached_shaped e
      exact ⟨inner.2, inner.1⟩
  | .call .inList args => ⟨in_reached_shaped args false, in_reached_shaped args true⟩
  | .call .ipIn _ => ⟨nil_shaped, nil_shaped⟩
  | .call .equals args => ⟨cmp_reached_shaped args _, cmp_reached_shaped args _⟩
  | .call .notEquals args => ⟨cmp_reached_shaped args _, cmp_reached_shaped args _⟩
  | .call .less args => ⟨cmp_reached_shaped args _, cmp_reached_shaped args _⟩
  | .call .lessEquals args => ⟨cmp_reached_shaped args _, cmp_reached_shaped args _⟩
  | .call .greater args => ⟨cmp_reached_shaped args _, cmp_reached_shaped args _⟩
  | .call .greaterEquals args => ⟨cmp_reached_shaped args _, cmp_reached_shaped args _⟩
  | .call (.other _) _ => ⟨nil_shaped, nil_shaped⟩

end KoAgent.AttributeTests
