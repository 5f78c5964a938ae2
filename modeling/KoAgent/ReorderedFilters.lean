import Mathlib.Algebra.Order.BigOperators.Group.List
import Mathlib.Algebra.Order.Group.Nat
import Mathlib.Data.Finset.Card
import Mathlib.Data.List.Perm.Subperm
import KoAgent.SharedAtoms
import KoAgent.FilterExtension

/-!
# Filter lists in another order, and shorter ones

The loop of `Compile` carries its state from filter to filter: the names seen, the
entries counted, and the atom table, in which filters share atoms and even a
refused filter leaves some. What it accepts can still be said filter by filter,
without an order. So a list that compiles can be reordered, and filters can be
taken out of it, and what is left decides each event as before.
-/

namespace KoAgent.ReorderedFilters

open KoAgent.FilterModel KoAgent.CelExpression KoAgent.FilterCompiler KoAgent.FilterSets
open KoAgent.AtomInterning KoAgent.CompilerShape KoAgent.CompiledSets KoAgent.ProgramSize
open KoAgent.AttributeTests KoAgent.AtomTable KoAgent.SharedAtoms KoAgent.PushdownRefinement
open KoAgent.FilterExtension
open KoAgent.PredicateMachine hiding cmpField

set_option autoImplicit false

/-- Lists that are related item by item satisfy related conditions together. -/
theorem related_each {Left Right : Type} (Related : Left → Right → Prop) (left : List Left)
    (right : List Right) (related : List.Forall₂ Related left right) (P : Left → Prop)
    (Q : Right → Prop) (same : ∀ a ∈ left, ∀ b, Related a b → (P a ↔ Q b)) :
    (∀ a ∈ left, P a) ↔ ∀ b ∈ right, Q b := by
  induction related with
  | nil => simp
  | @cons a b left right head _ induction =>
      rw [List.forall_mem_cons, List.forall_mem_cons, same a List.mem_cons_self b head,
        induction fun c member => same c (List.mem_cons_of_mem _ member)]

section Acceptance

variable (cel : Cel)

/-- What a filter adds to the count of the size check. -/
def filterSize (f : Config) : Nat :=
  match parseCheck cel f.expr with
  | .error _ => 0
  | .ok e => (predCount e).elim 0 fun count => count + 1

/-- The attribute tests that compiling a filter reaches. -/
def filterTests (f : Config) : List AttrTest :=
  match parseCheck cel f.expr with
  | .error _ => []
  | .ok e => reached e

/-- What `Compile` accepts, with no order of the filters in it. -/
structure Acceptable (cfg : List Config) : Prop where
  nonempty : cfg ≠ []
  filters : cfg.length ≤ maxFilters
  each : ∀ f ∈ cfg, f.name ≠ "" ∧
    ∃ e prg, parseCheck cel f.expr = .ok e ∧ cel.program e = .ok prg
  distinct : (cfg.map Config.name).Nodup
  size : (cfg.map (filterSize cel)).sum ≤ maxPreds
  atoms : ((cfg.flatMap (filterTests cel)).map AttrTest.key).toFinset.card ≤ 64

theorem error_not_ok (problem : CompileError) :
    ¬∃ next : CompileState, Except.error problem = .ok next := by
  intro made
  cases made with
  | intro next same => cases same

/-- What one iteration needs of the filter and of the filters before it. -/
theorem compile_filter_accepts (st : CompileState) (f : Config) (start : st.npreds ≤ maxPreds) :
    (∃ next, compileFilter cel st f = .ok next) ↔
      (f.name ≠ "" ∧ ∃ e, parseCheck cel f.expr = .ok e) ∧ f.name ∉ st.seen ∧
        st.npreds + filterSize cel f ≤ maxPreds := by
  rw [compileFilter, filterSize]
  by_cases unnamed : f.name = ""
  · rw [if_pos unnamed]
    exact iff_of_false (error_not_ok _) fun ok => ok.1.1 unnamed
  rw [if_neg unnamed]
  by_cases repeated : f.name ∈ st.seen
  · rw [if_pos repeated]
    exact iff_of_false (error_not_ok _) fun ok => ok.2.1 repeated
  rw [if_neg repeated]
  cases parseCheck cel f.expr with
  | error text =>
      apply iff_of_false (error_not_ok _)
      intro ok
      rcases ok.1.2 with ⟨e, parsed⟩
      cases parsed
  | ok e =>
      dsimp only
      rw [← (conj_sized e).1 st.compiler]
      rcases conj e st.compiler with ⟨_ | preds, c⟩
      · exact iff_of_true ⟨_, rfl⟩ ⟨⟨unnamed, e, rfl⟩, repeated, start⟩
      · dsimp only [Option.map_some, Option.elim]
        by_cases large : st.npreds + preds.length + 1 > maxPreds
        · rw [if_pos large]
          apply iff_of_false (error_not_ok _)
          intro ok
          have fits := ok.2.2
          omega
        · rw [if_neg large]
          exact iff_of_true ⟨_, rfl⟩ ⟨⟨unnamed, e, rfl⟩, repeated, by omega⟩

theorem compile_filter_counts (st next : CompileState) (f : Config)
    (step : compileFilter cel st f = .ok next) :
    next.seen = f.name :: st.seen ∧ next.npreds = st.npreds + filterSize cel f := by
  rw [compileFilter] at step
  split_ifs at step
  rw [filterSize]
  cases parsed : parseCheck cel f.expr with
  | error text =>
      rw [parsed] at step
      cases step
  | ok e =>
      rw [parsed] at step
      dsimp only at step ⊢
      rw [← (conj_sized e).1 st.compiler]
      generalize conj e st.compiler = compiled at step ⊢
      rcases compiled with ⟨_ | preds, c⟩
      · cases step
        exact ⟨rfl, rfl⟩
      · dsimp only at step
        split_ifs at step
        cases step
        exact ⟨rfl, rfl⟩

/-- The loop from any state, by induction over the filters; the names it has seen
and the entries it has counted are all that connects one filter to the next. -/
theorem compile_filters_accepts (cfg : List Config) (st : CompileState)
    (start : st.npreds ≤ maxPreds) :
    (∃ last, compileFilters cel st cfg = .ok last) ↔
      (∀ f ∈ cfg, f.name ≠ "" ∧ ∃ e, parseCheck cel f.expr = .ok e) ∧
        (∀ f ∈ cfg, f.name ∉ st.seen) ∧ (cfg.map Config.name).Nodup ∧
          st.npreds + (cfg.map (filterSize cel)).sum ≤ maxPreds := by
  induction cfg generalizing st with
  | nil => simpa [compileFilters] using start
  | cons f rest induction =>
      have head := compile_filter_accepts cel st f start
      rw [compileFilters, List.forall_mem_cons, List.forall_mem_cons, List.map_cons, List.map_cons,
        List.nodup_cons, List.sum_cons]
      cases step : compileFilter cel st f with
      | error problem =>
          rw [step] at head
          apply iff_of_false (error_not_ok _)
          intro ok
          have fits := ok.2.2.2
          exact error_not_ok _ (head.mpr ⟨ok.1.1, ok.2.1.1, by omega⟩)
      | ok next =>
          rcases head.mp ⟨next, step⟩ with ⟨named, fresh, fits⟩
          rcases compile_filter_counts cel st next f step with ⟨seen, npreds⟩
          dsimp only
          rw [induction next (by omega), seen, npreds]
          have apart : (∀ g ∈ rest, g.name ∉ f.name :: st.seen) ↔
              f.name ∉ rest.map Config.name ∧ ∀ g ∈ rest, g.name ∉ st.seen := by
            simp only [List.mem_cons, not_or, List.mem_map, not_exists, not_and]
            constructor
            · intro others
              exact ⟨fun g member => (others g member).1, fun g member => (others g member).2⟩
            · intro others g member
              exact ⟨others.1 g member, others.2 g member⟩
          rw [apart, Nat.add_assoc]
          constructor
          · intro ok
            rcases ok with ⟨later, ⟨other, unseen⟩, distinct, fits⟩
            exact ⟨⟨named, later⟩, ⟨fresh, unseen⟩, ⟨other, distinct⟩, fits⟩
          · intro ok
            rcases ok with ⟨⟨_, later⟩, ⟨_, unseen⟩, ⟨other, distinct⟩, fits⟩
            exact ⟨later, ⟨other, unseen⟩, distinct, fits⟩

/-- The atoms have different keys, which are the keys of the index. -/
structure Keyed (c : Compiler) : Prop where
  distinct : (c.atoms.map keyOf).Nodup
  indexed : ∀ key, (c.atomIdx key).isSome ↔ key ∈ c.atoms.map keyOf

theorem keyed_empty : Keyed Compiler.empty where
  distinct := List.nodup_nil
  indexed := by
    intro key
    constructor
    · intro found
      cases found
    · intro member
      cases member

theorem intern_test_keyed (t : AttrTest) (c : Compiler) (keyed : Keyed c) :
    Keyed (internTest t c).2 := by
  have indexed := intern_test_indexed t c
  rcases intern_test_cases t c with ⟨id, found, step⟩ | ⟨missing, step⟩
  · rw [step]
    exact keyed
  · rw [step] at indexed ⊢
    have fresh : t.key ∉ c.atoms.map keyOf := by
      rw [← keyed.indexed, missing]
      exact Bool.false_ne_true
    constructor
    · dsimp only
      rw [List.map_append, List.map_singleton]
      exact List.nodup_append.mpr ⟨keyed.distinct, List.nodup_singleton _, by
        intro key member other same equal
        rw [equal, List.mem_singleton.mp same] at member
        exact fresh member⟩
    · intro key
      rw [indexed key, keyed.indexed key, List.map_append, List.map_singleton, List.mem_append,
        List.mem_singleton]
      exact or_congr_right eq_comm

theorem intern_all_keyed (tests : List AttrTest) (c : Compiler) (keyed : Keyed c) :
    Keyed (internAll tests c).2 := by
  induction tests generalizing c with
  | nil => exact keyed
  | cons t rest induction => exact induction _ (intern_test_keyed t c keyed)

/-- However the tests are ordered, there are as many atoms as different keys. -/
theorem intern_all_count (tests : List AttrTest) :
    (internAll tests Compiler.empty).2.atoms.length =
      (tests.map AttrTest.key).toFinset.card := by
  have keyed := intern_all_keyed tests Compiler.empty keyed_empty
  have same : ((internAll tests Compiler.empty).2.atoms.map keyOf).toFinset =
      (tests.map AttrTest.key).toFinset := by
    ext key
    rw [List.mem_toFinset, List.mem_toFinset, ← keyed.indexed, intern_all_indexed, List.mem_map]
    constructor
    · intro found
      rcases found with nothing | here
      · cases nothing
      · exact here
    · exact Or.inr
  rw [← same, List.toFinset_card_of_nodup keyed.distinct, List.length_map]

theorem cel_programs_accepts (es : List Expr) :
    (∃ progs, celPrograms cel es = .ok progs) ↔ ∀ e ∈ es, ∃ prg, cel.program e = .ok prg := by
  induction es with
  | nil => simp [celPrograms]
  | cons e rest induction =>
      rw [celPrograms, List.forall_mem_cons, ← induction]
      cases cel.program e with
      | error text => simp
      | ok prg => cases celPrograms cel rest <;> simp [Except.map]

theorem parsed_tests (cfg : List Config) (es : List Expr)
    (parsed : List.Forall₂ (fun f e => parseCheck cel f.expr = .ok e) cfg es) :
    cfg.flatMap (filterTests cel) = es.flatMap reached := by
  induction parsed with
  | nil => rfl
  | cons head _ induction =>
      rw [List.flatMap_cons, List.flatMap_cons, induction, filterTests, head]

theorem parsed_each (cfg : List Config) (es : List Expr)
    (parsed : List.Forall₂ (fun f e => parseCheck cel f.expr = .ok e) cfg es) (Holds : Expr → Prop) :
    (∀ f ∈ cfg, ∃ e, parseCheck cel f.expr = .ok e ∧ Holds e) ↔ ∀ e ∈ es, Holds e := by
  apply related_each _ cfg es parsed
  intro f _ e checked
  rw [checked]
  simp

theorem compile_loop (cfg : List Config) (s : FilterSet) (accepted : compile cel cfg = .ok s) :
    ∃ last, compileFilters cel CompileState.start cfg = .ok last := by
  rw [compile] at accepted
  split_ifs at accepted
  cases loop : compileFilters cel CompileState.start cfg with
  | error problem =>
      rw [loop] at accepted
      cases accepted
  | ok last => exact ⟨last, rfl⟩

theorem accepted_acceptable (cfg : List Config) (s : FilterSet)
    (accepted : compile cel cfg = .ok s) : Acceptable cel cfg := by
  rcases (compile_filters_accepts cel cfg CompileState.start (Nat.zero_le _)).mp
    (compile_loop cel cfg s accepted) with ⟨each, _, distinct, size⟩
  rw [show CompileState.start.npreds = 0 from rfl, Nat.zero_add] at size
  rcases compile_spec cel cfg s accepted with ⟨es, results, c, from_⟩
  have programs : ∀ e ∈ es, ∃ prg, cel.program e = .ok prg := by
    intro e member
    rcases List.mem_iff_getElem.mp member with ⟨i, inside, rfl⟩
    exact ⟨_, from_.progs.get inside (by rw [← from_.progs.length_eq]; exact inside)⟩
  have state := conj_all_state es Compiler.empty
  rw [from_.compiled] at state
  exact {
    nonempty := from_.nonempty
    filters := from_.filterBound
    each := by
      intro f member
      rcases (parsed_each cel cfg es from_.parsed _).mpr programs f member with
        ⟨e, parsed, prg, built⟩
      exact ⟨(each f member).1, e, prg, parsed, built⟩
    distinct := distinct
    size := size
    atoms := by
      rw [parsed_tests cel cfg es from_.parsed, ← intern_all_count, ← state]
      exact from_.atomBound }

theorem acceptable_compiles (cfg : List Config) (ok : Acceptable cel cfg) :
    ∃ s, compile cel cfg = .ok s := by
  have named : ∀ f ∈ cfg, f.name ≠ "" ∧ ∃ e, parseCheck cel f.expr = .ok e := by
    intro f member
    rcases ok.each f member with ⟨name, e, _, parsed, _⟩
    exact ⟨name, e, parsed⟩
  have size : CompileState.start.npreds + (cfg.map (filterSize cel)).sum ≤ maxPreds := by
    rw [show CompileState.start.npreds = 0 from rfl, Nat.zero_add]
    exact ok.size
  rcases (compile_filters_accepts cel cfg CompileState.start (Nat.zero_le _)).mpr
    ⟨named, fun _ _ => List.not_mem_nil, ok.distinct, size⟩ with ⟨last, done⟩
  rcases compile_filters_spec cel cfg CompileState.start last done (Nat.zero_le _) with
    ⟨es, parsed, compiler, _, asts, _⟩
  have atoms : last.compiler.atoms.length ≤ 64 := by
    rw [compiler, show CompileState.start.compiler = Compiler.empty from rfl, conj_all_state,
      intern_all_count, ← parsed_tests cel cfg es parsed]
    exact ok.atoms
  have programs : ∀ e ∈ last.asts, ∃ prg, cel.program e = .ok prg := by
    rw [asts, show CompileState.start.asts = [] from rfl, List.nil_append]
    apply (parsed_each cel cfg es parsed fun e => ∃ prg, cel.program e = .ok prg).mp
    intro f member
    rcases ok.each f member with ⟨_, e, prg, checked, built⟩
    exact ⟨e, checked, prg, built⟩
  rcases (cel_programs_accepts cel last.asts).mpr programs with ⟨progs, built⟩
  have some_ : ¬cfg.length = 0 := by
    intro empty
    exact ok.nonempty (List.eq_nil_of_length_eq_zero empty)
  rw [compile, if_neg some_, if_neg (Nat.not_lt.mpr ok.filters), done]
  dsimp only
  rw [if_neg (Nat.not_lt.mpr atoms), built]
  exact ⟨_, rfl⟩

/-- `Compile` accepts a list exactly when each filter is in order, the names differ,
and the counted entries and the different keys of all filters together are in
their bounds. -/
theorem compile_accepts_iff (cfg : List Config) :
    (∃ s, compile cel cfg = .ok s) ↔ Acceptable cel cfg := by
  constructor
  · intro compiled
    rcases compiled with ⟨s, accepted⟩
    exact accepted_acceptable cel cfg s accepted
  · exact acceptable_compiles cel cfg

end Acceptance

/-- The predicates that do not read the verdict. -/
def plainPreds (preds : List Pred) : List Pred := preds.filter fun p => !(p.kind == predAttr)

/-- Whatever the state of the atom table, the action refuses alike and yields the
same predicates but for those that read the verdict. -/
def Uniform (action : Action) : Prop :=
  ∀ c d, (action c).1.map plainPreds = (action d).1.map plainPreds

theorem fixed_uniform (result : Option (List Pred)) : Uniform fun c => (result, c) :=
  fun _ _ => rfl

theorem plain_preds_attr (preds : List Pred) (attr : ∀ p ∈ preds, p.kind = predAttr) :
    plainPreds preds = [] := by
  rw [plainPreds, List.filter_eq_nil_iff]
  intro p member
  rw [attr p member]
  decide

theorem attr_pred_one_uniform (field op : U8) (values : List String) (neg : U8) :
    Uniform (attrPredOne field op values neg) := by
  have nothing : ∀ c, (attrPredOne field op values neg c).1.map plainPreds = some [] := by
    intro c
    rw [attrPredOne]
    apply congrArg some
    apply plain_preds_attr
    intro p member
    rw [List.mem_singleton.mp member]
    exact attr_pred_kind field op values neg c
  intro c d
  rw [nothing c, nothing d]

theorem neg_attr_preds_kind (field : U8) (values : List String) (c : Compiler) :
    ∀ p ∈ (negAttrPreds field values c).1, p.kind = predAttr := by
  induction values generalizing c with
  | nil =>
      intro p member
      cases member
  | cons value rest induction =>
      intro p member
      rcases List.mem_cons.mp member with rfl | later
      · exact attr_pred_kind field attrEq [value] 1 c
      · exact induction _ p later

theorem and_then_uniform (first second : Action) (one : Uniform first) (two : Uniform second) :
    Uniform (andThen first second) := by
  intro c d
  have early := one c d
  unfold andThen
  generalize first c = here at early ⊢
  generalize first d = there at early ⊢
  rcases here with ⟨_ | left, middle⟩ <;> rcases there with ⟨_ | other, between⟩
  · rfl
  · cases early
  · cases early
  · have late := two middle between
    dsimp only
    generalize second middle = here at late ⊢
    generalize second between = there at late ⊢
    rcases here with ⟨_ | right, last⟩ <;> rcases there with ⟨_ | further, final⟩
    · rfl
    · cases late
    · cases late
    · have front : plainPreds left = plainPreds other := Option.some.inj early
      have back : plainPreds right = plainPreds further := Option.some.inj late
      rw [plainPreds, plainPreds] at front back
      dsimp only [Option.map_some]
      rw [plainPreds, plainPreds, List.filter_append, List.filter_append, front, back]

theorem cmp_preds_uniform (args : List Expr) (kind : U8) : Uniform (cmpPreds args kind) := by
  have field : ∀ name op v, Uniform (FilterCompiler.cmpField name op v) := by
    intro name op v
    unfold FilterCompiler.cmpField
    cases statsFields name with
    | some f => cases v <;> exact fixed_uniform _
    | none =>
        cases attrFields name with
        | none => exact fixed_uniform _
        | some f =>
            cases v with
            | string value =>
                dsimp only
                split_ifs
                · exact attr_pred_one_uniform f attrEq [value] 0
                · exact attr_pred_one_uniform f attrEq [value] 1
                · exact fixed_uniform _
            | _ => exact fixed_uniform _
  have operand : ∀ name op e, Uniform (cmpOperand name op e) := by
    intro name op e
    unfold cmpOperand
    split
    · exact fixed_uniform _
    · cases literalOf e with
      | none => exact fixed_uniform _
      | some v => exact field name op v
  unfold cmpPreds
  split
  · next left right =>
      cases identOf left with
      | some name => exact operand name kind right
      | none =>
          cases identOf right with
          | some name => exact operand name (flipCmp kind) left
          | none => exact fixed_uniform _
  · exact fixed_uniform _

theorem in_preds_uniform (args : List Expr) :
    Uniform (inPreds args) ∧ Uniform (negInPreds args) := by
  unfold inPreds negInPreds
  split
  · next left right =>
      cases identOf left with
      | none => exact ⟨fixed_uniform _, fixed_uniform _⟩
      | some name =>
          dsimp only
          split_ifs
          · cases typeMaskOf right <;> exact ⟨fixed_uniform _, fixed_uniform _⟩
          · cases attrFields name with
            | none => exact ⟨fixed_uniform _, fixed_uniform _⟩
            | some f =>
                dsimp only
                split
                · exact ⟨fixed_uniform _, fixed_uniform _⟩
                · exact ⟨fixed_uniform _, fixed_uniform _⟩
                · next values _ _ =>
                    refine ⟨attr_pred_one_uniform f attrIn values 0, ?_⟩
                    intro c d
                    dsimp only [Option.map_some]
                    rw [plain_preds_attr _ (neg_attr_preds_kind f values c),
                      plain_preds_attr _ (neg_attr_preds_kind f values d)]
  · exact ⟨fixed_uniform _, fixed_uniform _⟩

theorem conj_uniform (e : Expr) : Uniform (conj e) := by
  have closed : Closed Uniform := {
    refuse := fixed_uniform none
    andThen := and_then_uniform
    cmp := cmp_preds_uniform
    inList := fun args => (in_preds_uniform args).1
    negIn := fun args => (in_preds_uniform args).2
    ipIn := fun args neg => fixed_uniform (ipInPreds args neg) }
  exact (conj_induction closed e).1

/-- The predicates of an expression that do not read the verdict. -/
def basePreds (e : Expr) : List Pred := plainPreds ((conj e Compiler.empty).1.getD [])

/-- What a pushed-down filter of a set was compiled from, with the table at the end. -/
structure CompilesTo (final : Compiler) (e : Expr) (result : Option (List Pred)) : Prop where
  pushed : result.isSome = pushable e
  tests : ∀ preds, result = some preds → ∀ p ∈ preds, IsTest p
  plain : ∀ preds, result = some preds → plainPreds preds = basePreds e
  named : ∀ preds, result = some preds → attrPreds preds = (reached e).map (namedPred final) ∧
    ∀ t ∈ reached e, Names final t (namedPred final t)

theorem conj_all_compiles (es : List Expr) (c final : Compiler) (bounded : Bounded c)
    (later : Extends (conjAll es c).2 final) :
    List.Forall₂ (CompilesTo final) es (conjAll es c).1 := by
  have names := conj_all_names es c final later
  induction es generalizing c with
  | nil => exact .nil
  | cons e rest induction =>
      rw [conjAll] at names later ⊢
      cases names with
      | cons head tail =>
          rcases conj_well_formed e c bounded with ⟨next, _, ok⟩
          refine .cons ⟨?_, ?_, ?_, ?_⟩ (induction _ next later tail)
          · rw [pushable, ← (conj_sized e).1 c, Option.isSome_map]
          · intro preds pushed p member
            exact (ok preds pushed p member).1
          · intro preds pushed
            have same := conj_uniform e c Compiler.empty
            rw [pushed] at same
            rw [basePreds]
            cases first : (conj e Compiler.empty).1 with
            | none =>
                rw [first] at same
                cases same
            | some others =>
                rw [first] at same
                exact Option.some.inj same
          · intro preds pushed
            exact names_map final _ _ (head preds pushed)

theorem conj_outcome_false (ev : Event) (verdict : Option U64) (preds : List Pred) :
    conjOutcome ev verdict preds = .triFalse ↔
      ∃ p ∈ preds, predOutcome ev verdict p = .triFalse := by
  induction preds with
  | nil => simp [conjOutcome]
  | cons p rest induction =>
      rw [conjOutcome, List.exists_mem_cons_iff, ← induction]
      cases predOutcome ev verdict p <;> cases conjOutcome ev verdict rest <;> simp [triAnd]

theorem walk_answer_drop (ev : Event) (verdict : Option U64) (results : List (Option (List Pred)))
    (i : Nat) (small : i + results.length ≤ 32) :
    walkAnswer ev verdict i results = filterDrop ↔ ∀ result ∈ results,
      ∃ preds, result = some preds ∧ conjOutcome ev verdict preds = .triFalse := by
  induction results generalizing i with
  | nil => simp [walkAnswer]
  | cons result rest induction =>
      rw [List.length_cons] at small
      rw [List.forall_mem_cons, ← induction (i + 1) (by omega)]
      cases result with
      | none =>
          constructor
          · intro dropped
            exact absurd dropped (show filterUndecided ≠ filterDrop by decide)
          · intro refuted
            rcases refuted.1 with ⟨preds, pushed, _⟩
            cases pushed
      | some preds =>
          rw [walkAnswer]
          cases outcome : conjOutcome ev verdict preds with
          | triTrue => simp [outcome, (filter_index_reserved i (by omega)).1]
          | triUnknown => simp [outcome, show filterUndecided ≠ filterDrop by decide]
          | triFalse => simp [outcome]

/-- No two tests of the filters print alike and differ in their members. -/
def Distinguished (cel : Cel) (cfg : List Config) : Prop :=
  ∀ t ∈ cfg.flatMap (filterTests cel), ∀ u ∈ cfg.flatMap (filterTests cel),
    t.key = u.key → SameMembers t u

def testHolds (attrs : CgroupAttrs) (t : AttrTest) : Bool := truth t attrs == (t.neg == 0)

/-- Some predicate of the filter is false of the event, the attribute tests only
where the attributes are known. -/
def Refuted (ev : Event) (known : Option CgroupAttrs) (e : Expr) : Prop :=
  (∃ p ∈ basePreds e, predHolds ev 0 p = false) ∨
    ∃ attrs, known = some attrs ∧ ∃ t ∈ reached e, testHolds attrs t = false

theorem tri_of_bool_false (value : Bool) : triOfBool value = .triFalse ↔ value = false := by
  cases value <;> decide

/-- A predicate that does not read the verdict says the same under any. -/
theorem plain_outcome (ev : Event) (verdict : Option U64) (p : Pred) (test : IsTest p)
    (plain : ¬p.kind = predAttr) : predOutcome ev verdict p = triOfBool (predHolds ev 0 p) := by
  unfold predOutcome predHolds
  rcases test with kind | kind | kind
  · rw [if_pos kind, if_pos kind]
  · have other : ¬predIPSet = predCmp := by decide
    rw [kind, if_neg other, if_neg other, if_pos rfl, if_pos rfl]
  · exact absurd kind plain

theorem attr_outcome (ev : Event) (atoms : List Atom) (attrs : CgroupAttrs) (t : AttrTest) (p : Pred)
    (represents : Represents atoms t p) :
    predOutcome ev (some (verdictMask atoms attrs)) p = triOfBool (testHolds attrs t) := by
  rw [predOutcome, represents.kind, if_neg (by decide), if_neg (by decide)]
  rw [attrHolds, shifted_bit, represents.bit attrs, represents.polarity, testHolds]

theorem attr_outcome_unknown (ev : Event) (p : Pred) (kind : p.kind = predAttr) :
    predOutcome ev none p = .triUnknown := by
  rw [predOutcome, kind, if_neg (by decide), if_neg (by decide)]

/-- A pushed-down filter is false under a verdict of its own table exactly when one
of its tests is; the table itself does not matter. -/
theorem filter_refuted (ev : Event) (final : Compiler) (e : Expr) (preds : List Pred)
    (compiled : CompilesTo final e (some preds)) (known : Option CgroupAttrs)
    (represented : known.isSome = true →
      ∀ t ∈ reached e, Represents final.atoms t (namedPred final t)) :
    conjOutcome ev (known.map (verdictMask final.atoms)) preds = .triFalse ↔
      Refuted ev known e := by
  rw [conj_outcome_false, Refuted, ← compiled.plain preds rfl]
  constructor
  · intro found
    rcases found with ⟨p, member, refuted⟩
    by_cases kind : p.kind = predAttr
    · right
      cases known with
      | none =>
          rw [Option.map_none, attr_outcome_unknown ev p kind] at refuted
          cases refuted
      | some attrs =>
          have inside : p ∈ attrPreds preds := List.mem_filter.mpr ⟨member, by rw [kind]; decide⟩
          rw [(compiled.named preds rfl).1] at inside
          rcases List.mem_map.mp inside with ⟨t, reaches, rfl⟩
          rw [Option.map_some, attr_outcome ev final.atoms attrs t _ (represented rfl t reaches),
            tri_of_bool_false] at refuted
          exact ⟨attrs, rfl, t, reaches, refuted⟩
    · left
      rw [plain_outcome ev _ p (compiled.tests preds rfl p member) kind, tri_of_bool_false] at refuted
      exact ⟨p, List.mem_filter.mpr ⟨member, by simpa using kind⟩, refuted⟩
  · intro found
    rcases found with ⟨p, member, refuted⟩ | ⟨attrs, rfl, t, reaches, refuted⟩
    · rcases List.mem_filter.mp member with ⟨inside, kind⟩
      refine ⟨p, inside, ?_⟩
      rw [plain_outcome ev _ p (compiled.tests preds rfl p inside) (by simpa using kind),
        tri_of_bool_false]
      exact refuted
    · have member : namedPred final t ∈ attrPreds preds := by
        rw [(compiled.named preds rfl).1]
        exact List.mem_map_of_mem reaches
      refine ⟨namedPred final t, (List.mem_filter.mp member).1, ?_⟩
      rw [Option.map_some, attr_outcome ev final.atoms attrs t _ (represented rfl t reaches),
        tri_of_bool_false]
      exact refuted

section Meaning

variable (cel : Cel) (cfg : List Config) (s : FilterSet)

/-- Where no two tests print alike and differ, every test reads its own truth. -/
theorem tests_represented (es : List Expr) (final : Compiler)
    (parsed : List.Forall₂ (fun f e => parseCheck cel f.expr = .ok e) cfg es)
    (indexes : Indexes (es.flatMap reached) final) (bound : final.atoms.length ≤ 64)
    (distinguished : Distinguished cel cfg) (e : Expr) (member : e ∈ es) (t : AttrTest)
    (reaches : t ∈ reached e) (named : Names final t (namedPred final t)) :
    Represents final.atoms t (namedPred final t) := by
  have inside : t ∈ es.flatMap reached := List.mem_flatMap.mpr ⟨e, member, reaches⟩
  rcases first_with_exists _ t inside with ⟨owner, first⟩
  rcases first_with_spec _ _ _ first with ⟨key, earlier⟩
  rcases List.mem_flatMap.mp earlier with ⟨other, _, there⟩
  rw [Distinguished, parsed_tests cel cfg es parsed] at distinguished
  exact (represents_iff _ final indexes bound t owner ((reached_shaped e).1 t reaches)
    ((reached_shaped other).1 owner there) first _ named).mpr
    (distinguished owner earlier t inside key)

/-- The walk drops an event exactly when every filter is pushed down and refuted. -/
theorem run_preds_drop_iff (accepted : compile cel cfg = .ok s) (ev : Event)
    (known : Option CgroupAttrs) (clear : known.isSome = true → Distinguished cel cfg) :
    s.runPreds ev (known.map s.verdictMask) = filterDrop ↔
      ∀ f ∈ cfg, ∃ e, parseCheck cel f.expr = .ok e ∧ pushable e = true ∧ Refuted ev known e := by
  rcases compile_spec cel cfg s accepted with ⟨es, results, c, from_⟩
  have compiles := conj_all_compiles es Compiler.empty c bounded_empty
    (by rw [from_.compiled]; exact fun _ _ found => found)
  have table := intern_all_indexes (es.flatMap reached) [] Compiler.empty indexes_empty
  rw [List.nil_append, ← conj_all_state, from_.compiled] at table
  rw [from_.compiled] at compiles
  have small : results.length ≤ 32 := by
    rw [from_.results_length]
    exact from_.filterBound
  have masks : s.verdictMask = verdictMask c.atoms := by
    funext attrs
    rw [FilterSet.verdictMask, from_.atoms]
  rw [run_preds_flat from_, walk_answer_drop ev _ results 0 (by omega), masks,
    parsed_each cel cfg es from_.parsed fun e => pushable e = true ∧ Refuted ev known e]
  apply (related_each _ es results compiles _ _ _).symm
  intro e member result compiled
  rw [← compiled.pushed]
  cases result with
  | none => simp
  | some preds =>
      have outcome := filter_refuted ev c e preds compiled known fun isSome t reaches =>
        tests_represented cel cfg es c from_.parsed table from_.atomBound (clear isSome) e member t
          reaches ((compiled.named preds rfl).2 t reaches)
      simp [outcome]

theorem evaluate_from_none (act : Activation) (progs : List Program) (i : Nat) :
    evaluateFrom act i progs = none ↔ ∀ prg ∈ progs, isTrue (prg act) = false := by
  induction progs generalizing i with
  | nil => simp [evaluateFrom]
  | cons prg rest induction =>
      rw [evaluateFrom, List.forall_mem_cons, ← induction (i + 1)]
      cases isTrue (prg act) <;> simp

theorem evaluate_none_iff (accepted : compile cel cfg = .ok s) (ev : Event) :
    s.evaluate ev = none ↔ ∀ f ∈ cfg, ∃ e, parseCheck cel f.expr = .ok e ∧
      ∀ prg, cel.program e = .ok prg → isTrue (prg (activation ev)) = false := by
  rcases compile_spec cel cfg s accepted with ⟨es, results, c, from_⟩
  rw [FilterSet.evaluate, evaluate_from_none, parsed_each cel cfg es from_.parsed fun e =>
    ∀ prg, cel.program e = .ok prg → isTrue (prg (activation ev)) = false]
  apply (related_each _ es s.progs from_.progs _ _ _).symm
  intro e _ prg built
  rw [built]
  simp

theorem acceptable_subperm (fewer : List Config) (ok : Acceptable cel cfg) (sub : fewer.Subperm cfg)
    (some_ : fewer ≠ []) : Acceptable cel fewer where
  nonempty := some_
  filters := Nat.le_trans sub.length_le ok.filters
  each := fun f member => ok.each f (sub.subset member)
  distinct := by
    rcases sub with ⟨kept, perm, sublist⟩
    exact (perm.map Config.name).nodup_iff.mp (ok.distinct.sublist (sublist.map Config.name))
  size := by
    rcases sub with ⟨kept, perm, sublist⟩
    rw [← (perm.map (filterSize cel)).sum_eq]
    exact Nat.le_trans ((sublist.map (filterSize cel)).sum_le_sum fun _ _ => Nat.zero_le _) ok.size
  atoms := by
    refine Nat.le_trans (Finset.card_le_card ?_) ok.atoms
    intro key member
    rw [List.mem_toFinset, List.mem_map] at member ⊢
    rcases member with ⟨t, inside, rfl⟩
    rcases List.mem_flatMap.mp inside with ⟨f, chosen, reaches⟩
    exact ⟨t, List.mem_flatMap.mpr ⟨f, sub.subset chosen, reaches⟩, rfl⟩

theorem distinguished_subset (fewer : List Config) (subset : fewer ⊆ cfg)
    (distinguished : Distinguished cel cfg) : Distinguished cel fewer := by
  have wider : ∀ t ∈ fewer.flatMap (filterTests cel), t ∈ cfg.flatMap (filterTests cel) := by
    intro t member
    rcases List.mem_flatMap.mp member with ⟨f, chosen, reaches⟩
    exact List.mem_flatMap.mpr ⟨f, subset chosen, reaches⟩
  intro t left u right
  exact distinguished t (wider t left) u (wider u right)

/-- Taking filters out of a list that compiles, and putting the rest in any order,
gives a list that compiles; the rest matches no event that the whole list did not
match, and an event that the walk drops under the whole list, with or without a
verdict, is dropped under the rest as well. -/
theorem fewer_filters_report_less (accepted : compile cel cfg = .ok s) (fewer : List Config)
    (sub : fewer.Subperm cfg) (some_ : fewer ≠ []) :
    ∃ t, compile cel fewer = .ok t ∧
      (∀ ev, s.evaluate ev = none → t.evaluate ev = none) ∧
        ∀ ev (known : Option CgroupAttrs), (known.isSome = true → Distinguished cel cfg) →
          s.runPreds ev (known.map s.verdictMask) = filterDrop →
            t.runPreds ev (known.map t.verdictMask) = filterDrop := by
  have ok := accepted_acceptable cel cfg s accepted
  rcases acceptable_compiles cel fewer (acceptable_subperm cel cfg fewer ok sub some_) with
    ⟨t, compiled⟩
  refine ⟨t, compiled, ?_, ?_⟩
  · intro ev unmatched
    rw [evaluate_none_iff cel cfg s accepted] at unmatched
    rw [evaluate_none_iff cel fewer t compiled]
    exact fun f member => unmatched f (sub.subset member)
  · intro ev known clear dropped
    rw [run_preds_drop_iff cel cfg s accepted ev known clear] at dropped
    rw [run_preds_drop_iff cel fewer t compiled ev known fun isSome =>
      distinguished_subset cel cfg fewer sub.subset (clear isSome)]
    exact fun f member => dropped f (sub.subset member)

end Meaning

def devAttrs : CgroupAttrs := { namespaceName := "dev", container := "", pod := "" }

theorem grown_filters_distinguished : Distinguished grownCel (slowProdFilters ++ [testFilter]) := by
  have tests : (slowProdFilters ++ [testFilter]).flatMap (filterTests grownCel) =
      [equalTest attrNamespace "prod" 0, equalTest attrNamespace "test" 0] := rfl
  have apart : (equalTest attrNamespace "prod" 0).key ≠ (equalTest attrNamespace "test" 0).key := by
    decide
  rw [Distinguished, tests]
  intro t left u right same
  simp only [List.mem_cons, List.not_mem_nil, or_false] at left right
  rcases left with rfl | rfl <;> rcases right with rfl | rfl
  · exact fun _ => Iff.rfl
  · exact absurd same apart
  · exact absurd same.symm apart
  · exact fun _ => Iff.rfl

/-- With the two filters the other way round the atoms change places; an event of a
third namespace is dropped all the same. -/
theorem reversed_filters_drop_dev :
    ∃ t, compile grownCel (testFilter :: slowProdFilters) = .ok t ∧
      t.runPreds (prodEvent 250) (some (t.verdictMask devAttrs)) = filterDrop := by
  rcases fewer_filters_report_less grownCel (slowProdFilters ++ [testFilter]) grownSet rfl
    (testFilter :: slowProdFilters) (List.perm_append_singleton testFilter slowProdFilters).symm.subperm
    (List.cons_ne_nil _ _) with ⟨t, compiled, -, drops⟩
  exact ⟨t, compiled, drops (prodEvent 250) (some devAttrs) (fun _ => grown_filters_distinguished)
    (by decide)⟩

end KoAgent.ReorderedFilters
