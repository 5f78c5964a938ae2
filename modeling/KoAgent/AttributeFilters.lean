import KoAgent.KernelFilter
import KoAgent.PushdownRefinement

/-!
# Filters over namespace, container and pod

Filters built from equality tests on the three attributes compile to streams of
attribute predicates, so the answer of a walk is a function of the verdict alone.
A missing verdict never leads to a wrong decision: a walk without one answers
undecided, or what it would answer with any verdict.
-/

namespace KoAgent.AttributeFilters

open KoAgent.FilterModel KoAgent.CelExpression KoAgent.FilterCompiler KoAgent.FilterSets
open KoAgent.CompilerShape KoAgent.CompiledSets KoAgent.PushdownMeaning KoAgent.KernelFilter
open KoAgent.PushdownRefinement
open KoAgent.PredicateMachine hiding cmpField

set_option autoImplicit false

inductive EqualityTests : Expr → Prop
  | test (function : Function) (name : String) (field : U8) (value : String)
      (equality : function = .equals ∨ function = .notEquals)
      (known : attrFields name = some field) :
      EqualityTests (.call function [.ident name, .literal (.string value)])
  | logicalAnd (l r : Expr) (left : EqualityTests l) (right : EqualityTests r) :
      EqualityTests (.call .logicalAnd [l, r])
  | logicalNot (e : Expr) (inner : EqualityTests e) : EqualityTests (.call .logicalNot [e])

theorem equality_tests_denote (cel : Cel) (lawful : cel.Lawful) (ev : Event) (e : Expr)
    (tests : EqualityTests e) : ∃ value, Denotes cel ev e value := by
  induction tests with
  | test function name field value equality known =>
      exact ⟨_, attr_denotes cel lawful ev function name field value equality known⟩
  | logicalAnd l r _ _ left right =>
      obtain ⟨leftValue, leftDenotes⟩ := left
      obtain ⟨rightValue, rightDenotes⟩ := right
      exact ⟨_, leftDenotes.logicalAnd lawful rightDenotes⟩
  | logicalNot e _ inner =>
      obtain ⟨value, denotes⟩ := inner
      exact ⟨_, denotes.logicalNot lawful⟩

/-- Whatever predicates the action yields, they test attributes. -/
def AttrOnly (action : Action) : Prop :=
  ∀ c preds, (action c).1 = some preds → ∀ p ∈ preds, p.kind = predAttr

theorem refuse_attr_only : AttrOnly refuse := by
  intro c preds yields
  cases yields

theorem attr_pred_kind (field op : U8) (values : List String) (neg : U8) (c : Compiler) :
    (attrPred field op values neg c).1.kind = predAttr := by
  unfold attrPred
  dsimp only
  split <;> rfl

theorem attr_pred_one_attr_only (field op : U8) (values : List String) (neg : U8) :
    AttrOnly (attrPredOne field op values neg) := by
  intro c preds yields p member
  obtain rfl := Option.some.inj yields
  rw [List.mem_singleton.mp member]
  exact attr_pred_kind field op values neg c

theorem and_then_attr_only (first second : Action) (one : AttrOnly first) (two : AttrOnly second) :
    AttrOnly (andThen first second) := by
  intro c preds yields p member
  unfold andThen at yields
  rcases early : first c with ⟨left, middle⟩
  rw [early] at yields
  cases left with
  | none => cases yields
  | some left =>
      rcases late : second middle with ⟨right, last⟩
      dsimp only at yields
      rw [late] at yields
      cases right with
      | none => cases yields
      | some right =>
          obtain rfl := Option.some.inj yields
          rcases List.mem_append.mp member with inLeft | inRight
          · exact one c left (by rw [early]) p inLeft
          · exact two middle right (by rw [late]) p inRight

theorem equality_tests_attr_only (e : Expr) (tests : EqualityTests e) :
    AttrOnly (conj e) ∧ AttrOnly (negConj e) := by
  induction tests with
  | test function name field value equality known =>
      have comparison : isComparison function = true := by
        rcases equality with rfl | rfl <;> rfl
      obtain ⟨pushed, negated⟩ :=
        conj_comparison function comparison [.ident name, .literal (.string value)]
      have kinds : (cmpKind function = cmpEq ∨ cmpKind function = cmpNeq) ∧
          (flipCmp (cmpKind function) = cmpEq ∨ flipCmp (cmpKind function) = cmpNeq) := by
        rcases equality with rfl | rfl <;> decide
      rw [pushed, negated, attr_leaf_action name field _ value known kinds.1,
        attr_leaf_action name field _ value known kinds.2]
      exact ⟨attr_pred_one_attr_only _ _ _ _, attr_pred_one_attr_only _ _ _ _⟩
  | logicalAnd l r _ _ left right =>
      rw [conj_and]
      exact ⟨and_then_attr_only _ _ left.1 right.1, refuse_attr_only⟩
  | logicalNot e _ inner => exact ⟨inner.2, inner.1⟩

theorem conj_all_attr_only (es : List Expr) (all : ∀ e ∈ es, EqualityTests e) (c : Compiler)
    (preds : List Pred) (member : some preds ∈ (conjAll es c).1) (p : Pred) (inside : p ∈ preds) :
    p.kind = predAttr := by
  induction es generalizing c with
  | nil => cases member
  | cons e rest induction =>
      rcases List.mem_cons.mp member with first | later
      · exact (equality_tests_attr_only e (all e List.mem_cons_self)).1 c preds first.symm p inside
      · exact induction (fun other inRest => all other (List.mem_cons_of_mem e inRest)) _ later

theorem equality_stream_no_cidrs (cel : Cel) (cfg : List Config) (s : FilterSet)
    (accepted : compile cel cfg = .ok s) (language : ∀ e ∈ s.asts, EqualityTests e) (p : Pred)
    (member : p ∈ s.flat) : p.kind ≠ predIPSet := by
  obtain ⟨es, results, c, from_⟩ := compile_spec cel cfg s accepted
  rw [from_.flat] at member
  rw [from_.asts] at language
  rcases layout_member results 0 p member with ⟨preds, inside, found⟩ | ⟨j, userspace, rfl⟩
  · have attr := conj_all_attr_only es language Compiler.empty preds
      (by rw [from_.compiled]; exact inside) p found
    rw [attr]
    decide
  · exact show predEnd ≠ predIPSet by decide

/-- `less` is `more`, or not known yet. -/
def Refines (less more : Tri) : Prop := less = .triUnknown ∨ less = more

instance (less more : Tri) : Decidable (Refines less more) := inferInstanceAs (Decidable (_ ∨ _))

theorem tri_and_refines (less more left right : Tri) (first : Refines less more)
    (second : Refines left right) : Refines (triAnd less left) (triAnd more right) := by
  cases less <;> cases more <;> cases left <;> cases right <;> revert first second <;> decide

theorem pred_outcome_refines (ev : Event) (mask : U64) (p : Pred) :
    Refines (predOutcome ev none p) (predOutcome ev (some mask) p) := by
  unfold predOutcome
  split_ifs
  · exact Or.inr rfl
  · exact Or.inr rfl
  · exact Or.inl rfl

/-- By induction over the stream: a walk without a verdict is behind the walk with
one, and where it decides they agree. -/
theorem run_preds_unknown (ev : Event) (mask : U64) (flat : List Pred) (less more : Tri)
    (behind : Refines less more) :
    runPredsFrom ev none less flat = filterUndecided ∨
      runPredsFrom ev none less flat = runPredsFrom ev (some mask) more flat := by
  induction flat generalizing less more with
  | nil => exact Or.inr rfl
  | cons p rest induction =>
      by_cases test : IsTest p
      · rw [run_preds_test ev none less p rest test, run_preds_test ev (some mask) more p rest test]
        exact induction _ _ (tri_and_refines _ _ _ _ behind (pred_outcome_refines ev mask p))
      · by_cases kind : p.kind = predEnd
        · rw [run_preds_end ev none less p rest kind, run_preds_end ev (some mask) more p rest kind]
          split_ifs
          · exact Or.inl rfl
          · rcases behind with rfl | rfl
            · exact Or.inl rfl
            · cases less with
              | triTrue => exact Or.inr rfl
              | triUnknown => exact Or.inl rfl
              | triFalse => exact induction _ _ (Or.inr rfl)
        · left
          simp only [IsTest, not_or] at test
          simp only [runPredsFrom, test.1, test.2.1, test.2.2, kind, if_false]

/-- Whatever is decided before the verdict is known is decided so under every verdict. -/
theorem decision_without_verdict_final (flat : List Pred) (ev : Event)
    (decided : runPreds flat ev none ≠ filterUndecided) (mask : U64) :
    runPreds flat ev (some mask) = runPreds flat ev none := by
  rcases run_preds_unknown ev mask flat .triTrue .triTrue (Or.inr rfl) with undecided | same
  · exact absurd undecided decided
  · exact same.symm

/-- A slow connection is dropped on its round trip time, its pod unknown. -/
theorem decision_without_verdict_final_slow :
    runPreds slowProdSet.flat (prodEvent 50) (some 1) =
      runPreds slowProdSet.flat (prodEvent 50) none :=
  decision_without_verdict_final slowProdSet.flat (prodEvent 50) (by decide) 1

section Decisions

variable (cel : Cel) (lawful : cel.Lawful) (cfg : List Config) (s : FilterSet)
variable (accepted : compile cel cfg = .ok s) (language : ∀ e ∈ s.asts, EqualityTests e)

include lawful accepted language

theorem equality_tests_agreement (ev : Event) :
    Agreement 0 s.userspace (s.evaluate ev) (s.runPreds ev (some (s.verdictMask ev.attrs))) := by
  apply run_preds_agreement cel lawful cfg s accepted ev
  intro e member
  exact equality_tests_denote cel lawful ev e (language e member)

/-- A filter index that the walk answers is the one `Evaluate` selects. -/
theorem decided_matches (ev : Event) (index : U16)
    (answer : s.runPreds ev (some (s.verdictMask ev.attrs)) = index)
    (inside : index.toNat < s.names.length) :
    ∃ i, s.evaluate ev = some i ∧ BitVec.ofNat 16 i = index := by
  obtain ⟨_, bound⟩ := compiled_filter_marks cel cfg s accepted
  have agreement := equality_tests_agreement cel lawful cfg s accepted language ev
  rw [answer] at agreement
  generalize s.evaluate ev = outcome at agreement ⊢
  cases agreement with
  | matched k _ _ => exact ⟨0 + k, rfl, rfl⟩
  | dropped _ => exact absurd inside (by rw [show filterDrop.toNat = 65533 from rfl]; omega)
  | undecided _ _ _ _ =>
      exact absurd inside (by rw [show filterUndecided.toNat = 65534 from rfl]; omega)

/-- What the walk drops matches no filter. -/
theorem dropped_matches_none (ev : Event)
    (answer : s.runPreds ev (some (s.verdictMask ev.attrs)) = filterDrop) :
    s.evaluate ev = none := by
  obtain ⟨marks, bound⟩ := compiled_filter_marks cel cfg s accepted
  have agreement := equality_tests_agreement cel lawful cfg s accepted language ev
  generalize s.evaluate ev = outcome at agreement ⊢
  generalize s.runPreds ev (some (s.verdictMask ev.attrs)) = result at agreement answer
  cases agreement with
  | matched k inside _ => exact absurd answer (filter_index_reserved (0 + k) (by omega)).1
  | dropped _ => rfl
  | undecided _ _ _ _ => exact absurd answer (by decide)

end Decisions

end KoAgent.AttributeFilters
