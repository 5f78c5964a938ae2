import Mathlib.Algebra.GroupWithZero.Nat
import KoAgent.CompilerShape

/-!
# What a successful `Compile` returns

The error paths are gone once `Compile` has succeeded. What remains is the list
of checked expressions, compiled in order over one shared compiler state, and
the stream laid out from the results. `run_preds_flat` reads that stream filter
by filter, with any verdict state.
-/

namespace KoAgent.CompiledSets

open KoAgent.FilterModel KoAgent.CelExpression KoAgent.FilterCompiler KoAgent.FilterSets
open KoAgent.CompilerShape
open KoAgent.PredicateMachine hiding cmpField

set_option autoImplicit false

/-- The filters of a list compiled in order; `none` is a filter left to user space. -/
def conjAll : List Expr → Compiler → List (Option (List Pred)) × Compiler
  | [], c => ([], c)
  | e :: rest, c =>
      let first := conj e c
      let others := conjAll rest first.2
      (first.1 :: others.1, others.2)

/-- Predicates and END marker of each filter, from filter `i` on. -/
def layout : Nat → List (Option (List Pred)) → List Pred
  | _, [] => []
  | i, result :: rest =>
      result.getD [] ++ endMarker i result.isNone :: layout (i + 1) rest

/-- What the size check of `Compile` counts: pushed-down filters only. -/
def countedSize (results : List (Option (List Pred))) : Nat :=
  (results.map fun result => result.elim 0 fun preds => preds.length + 1).sum

structure CompiledFrom (cel : Cel) (cfg : List Config) (s : FilterSet) (es : List Expr)
    (results : List (Option (List Pred))) (c : Compiler) : Prop where
  parsed : List.Forall₂ (fun f e => parseCheck cel f.expr = .ok e) cfg es
  compiled : conjAll es Compiler.empty = (results, c)
  names : s.names = cfg.map Config.name
  asts : s.asts = es
  progs : List.Forall₂ (fun e prg => cel.program e = .ok prg) es s.progs
  atoms : s.atoms = c.atoms
  atomBound : c.atoms.length ≤ 64
  userspace : s.userspace = results.map Option.isNone
  flat : s.flat = layout 0 results
  nonempty : cfg ≠ []
  filterBound : cfg.length ≤ maxFilters
  sizeBound : countedSize results ≤ maxPreds

/-- The answer of the walk, filter by filter: the first filter that is not false
decides, and a filter left to user space is never false. -/
def walkAnswer (ev : Event) (verdict : Option U64) : Nat → List (Option (List Pred)) → U16
  | _, [] => filterDrop
  | _, none :: _ => filterUndecided
  | i, some preds :: rest =>
      match conjOutcome ev verdict preds with
      | .triTrue => BitVec.ofNat 16 i
      | .triUnknown => filterUndecided
      | .triFalse => walkAnswer ev verdict (i + 1) rest

theorem flat_stream_layout (i : Nat) (results : List (Option (List Pred))) :
    flatStream i (results.map fun result => result.getD []) (results.map Option.isNone) =
      layout i results := by
  induction results generalizing i with
  | nil => rfl
  | cons result rest induction =>
      simp only [List.map_cons, flatStream, layout, induction]

theorem conj_all_length (es : List Expr) (c : Compiler) : (conjAll es c).1.length = es.length := by
  induction es generalizing c with
  | nil => rfl
  | cons e rest induction => simp [conjAll, induction]

theorem conj_all_append (es more : List Expr) (c : Compiler) :
    conjAll (es ++ more) c =
      ((conjAll es c).1 ++ (conjAll more (conjAll es c).2).1,
        (conjAll more (conjAll es c).2).2) := by
  induction es generalizing c with
  | nil => rfl
  | cons e rest induction => simp only [List.cons_append, conjAll, induction]

theorem parsed_unique (cel : Cel) (cfg : List Config) (first second : List Expr)
    (one : List.Forall₂ (fun f e => parseCheck cel f.expr = .ok e) cfg first)
    (two : List.Forall₂ (fun f e => parseCheck cel f.expr = .ok e) cfg second) :
    first = second := by
  induction one generalizing second with
  | nil =>
      cases two
      rfl
  | cons head _ induction =>
      cases two with
      | cons other tail => rw [Except.ok.inj (head.symm.trans other), induction _ tail]

/-- What one iteration of the loop of `Compile` adds, whether the filter is pushed
down or left to user space. -/
theorem compile_filter_ok (cel : Cel) (st next : CompileState) (f : Config)
    (step : compileFilter cel st f = .ok next) (start : st.npreds ≤ maxPreds) :
    ∃ e, parseCheck cel f.expr = .ok e ∧
      next.compiler = (conj e st.compiler).2 ∧
      next.names = st.names ++ [f.name] ∧
      next.asts = st.asts ++ [e] ∧
      next.preds = st.preds ++ [(conj e st.compiler).1.getD []] ∧
      next.userspace = st.userspace ++ [(conj e st.compiler).1.isNone] ∧
      next.npreds = st.npreds + countedSize [(conj e st.compiler).1] ∧
      next.npreds ≤ maxPreds := by
  unfold compileFilter at step
  split_ifs at step
  split at step
  · cases step
  · next e checked =>
      rcases run : conj e st.compiler with ⟨result, c⟩
      rw [run] at step
      cases result with
      | none =>
          cases step
          exact ⟨e, checked, by rw [run], rfl, rfl, by rw [run]; rfl, by rw [run]; rfl,
            by rw [run]; rfl, start⟩
      | some preds =>
          dsimp only at step
          split_ifs at step with large
          cases step
          exact ⟨e, checked, by rw [run], rfl, rfl, by rw [run]; rfl, by rw [run]; rfl,
            by rw [run]; rfl, by dsimp only; omega⟩

/-- The loop of `Compile` from any state, by induction over the filters. -/
theorem compile_filters_spec (cel : Cel) (cfg : List Config) (st last : CompileState)
    (done : compileFilters cel st cfg = .ok last) (start : st.npreds ≤ maxPreds) :
    ∃ es, List.Forall₂ (fun f e => parseCheck cel f.expr = .ok e) cfg es ∧
      last.compiler = (conjAll es st.compiler).2 ∧
      last.names = st.names ++ cfg.map Config.name ∧
      last.asts = st.asts ++ es ∧
      last.preds = st.preds ++ (conjAll es st.compiler).1.map (fun result => result.getD []) ∧
      last.userspace = st.userspace ++ (conjAll es st.compiler).1.map Option.isNone ∧
      last.npreds = st.npreds + countedSize (conjAll es st.compiler).1 ∧
      last.npreds ≤ maxPreds := by
  induction cfg generalizing st with
  | nil =>
      cases done
      exact ⟨[], .nil, rfl, by simp, by simp, by simp [conjAll], by simp [conjAll],
        by simp [conjAll, countedSize], start⟩
  | cons f rest induction =>
      rw [compileFilters] at done
      cases step : compileFilter cel st f with
      | error problem => simp [step] at done
      | ok next =>
          simp only [step] at done
          obtain ⟨e, checked, added⟩ := compile_filter_ok cel st next f step start
          obtain ⟨compiler, names, asts, preds, userspace, npreds, bound⟩ := added
          obtain ⟨es, parsed, restAdded⟩ := induction next done bound
          rw [compiler, names, asts, preds, userspace, npreds] at restAdded
          refine ⟨e :: es, .cons checked parsed, ?_⟩
          simpa [conjAll, countedSize, Nat.add_assoc] using restAdded

theorem cel_programs_spec (cel : Cel) (es : List Expr) (progs : List Program)
    (built : celPrograms cel es = .ok progs) :
    List.Forall₂ (fun e prg => cel.program e = .ok prg) es progs := by
  induction es generalizing progs with
  | nil =>
      cases built
      exact .nil
  | cons e rest induction =>
      rw [celPrograms] at built
      cases made : cel.program e with
      | error text => simp [made] at built
      | ok prg =>
          simp only [made] at built
          cases others : celPrograms cel rest with
          | error problem => simp [others, Except.map] at built
          | ok tail =>
              simp only [others, Except.map, Except.ok.injEq] at built
              subst built
              exact .cons made (induction tail others)

theorem compile_spec (cel : Cel) (cfg : List Config) (s : FilterSet)
    (accepted : compile cel cfg = .ok s) :
    ∃ es results c, CompiledFrom cel cfg s es results c := by
  unfold compile at accepted
  split_ifs at accepted with empty many
  cases loop : compileFilters cel CompileState.start cfg with
  | error problem => simp [loop] at accepted
  | ok last =>
      simp only [loop] at accepted
      split_ifs at accepted with atoms
      cases programs : celPrograms cel last.asts with
      | error problem => simp [programs] at accepted
      | ok progs =>
          simp only [programs, Except.ok.injEq] at accepted
          obtain ⟨es, parsed, compiler, names, asts, preds, userspace, npreds, bound⟩ :=
            compile_filters_spec cel cfg _ last loop (Nat.zero_le _)
          simp only [CompileState.start, List.nil_append, Nat.zero_add] at *
          refine ⟨es, (conjAll es Compiler.empty).1, (conjAll es Compiler.empty).2, ?_⟩
          subst accepted
          exact {
            parsed := parsed
            compiled := rfl
            names := names
            asts := asts
            progs := by
              rw [← asts]
              exact cel_programs_spec cel _ _ programs
            atoms := by rw [compiler]
            atomBound := by
              rw [← compiler]
              omega
            userspace := userspace
            flat := by
              dsimp only
              rw [preds, userspace, flat_stream_layout]
            nonempty := by
              rintro rfl
              exact empty rfl
            filterBound := by omega
            sizeBound := by omega }

theorem conj_all_well_formed (es : List Expr) (c : Compiler) (bounded : Bounded c) :
    Bounded (conjAll es c).2 ∧ c.atoms <+: (conjAll es c).2.atoms ∧
      ∀ preds, some preds ∈ (conjAll es c).1 → ∀ p ∈ preds,
        PredOk (conjAll es c).2.atoms.length p := by
  induction es generalizing c with
  | nil => exact ⟨bounded, List.prefix_rfl, by simp [conjAll]⟩
  | cons e rest induction =>
      obtain ⟨next, grown, ok⟩ := conj_well_formed e c bounded
      obtain ⟨last, further, others⟩ := induction _ next
      refine ⟨last, grown.trans further, ?_⟩
      intro preds member p inside
      rcases List.mem_cons.mp member with first | later
      · exact pred_ok_mono _ _ further.length_le p (ok preds first.symm p inside)
      · exact others preds later p inside

theorem bounded_empty : Bounded Compiler.empty := by
  intro key id found
  cases found

theorem CompiledFrom.preds_ok {cel : Cel} {cfg : List Config} {s : FilterSet} {es : List Expr}
    {results : List (Option (List Pred))} {c : Compiler}
    (from_ : CompiledFrom cel cfg s es results c) (preds : List Pred)
    (member : some preds ∈ results) (p : Pred) (inside : p ∈ preds) : PredOk c.atoms.length p := by
  have ok := (conj_all_well_formed es Compiler.empty bounded_empty).2.2
  rw [from_.compiled] at ok
  exact ok preds member p inside

theorem CompiledFrom.results_length {cel : Cel} {cfg : List Config} {s : FilterSet} {es : List Expr}
    {results : List (Option (List Pred))} {c : Compiler}
    (from_ : CompiledFrom cel cfg s es results c) : results.length = cfg.length := by
  have length := conj_all_length es Compiler.empty
  rw [from_.compiled] at length
  rw [length]
  exact from_.parsed.length_eq.symm

theorem end_marker_index (i : Nat) (userspace : Bool) (small : i < 256) :
    (endMarker i userspace).a.setWidth 16 = BitVec.ofNat 16 i := by
  apply BitVec.eq_of_toNat_eq
  simp only [endMarker, BitVec.toNat_setWidth, BitVec.toNat_ofNat]
  omega

theorem run_preds_layout (ev : Event) (verdict : Option U64) (results : List (Option (List Pred)))
    (i : Nat) (small : i + results.length ≤ 256)
    (tests : ∀ preds, some preds ∈ results → ∀ p ∈ preds, IsTest p) :
    runPredsFrom ev verdict .triTrue (layout i results) = walkAnswer ev verdict i results := by
  induction results generalizing i with
  | nil => rfl
  | cons result rest induction =>
      rw [List.length_cons] at small
      cases result with
      | none =>
          rw [layout, Option.getD_none, List.nil_append, run_preds_end _ _ _ _ _ rfl]
          rfl
      | some preds =>
          have next := induction (i + 1) (by omega) fun others member =>
            tests others (List.mem_cons_of_mem _ member)
          have pushed : ¬(endMarker i (some preds).isNone).b = 1 := show ¬(0 : U8) = 1 by decide
          rewrite [layout, Option.getD_some,
            run_preds_tests _ _ _ _ _ (tests preds List.mem_cons_self), tri_and_true_left,
            run_preds_end _ _ _ _ _ rfl, if_neg pushed, end_marker_index i _ (by omega), next, walkAnswer]
          cases conjOutcome ev verdict preds <;> rfl

/-- The walk over the stream of a compiled set, with any verdict state. -/
theorem run_preds_flat {cel : Cel} {cfg : List Config} {s : FilterSet} {es : List Expr}
    {results : List (Option (List Pred))} {c : Compiler}
    (from_ : CompiledFrom cel cfg s es results c) (ev : Event) (verdict : Option U64) :
    s.runPreds ev verdict = walkAnswer ev verdict 0 results := by
  have length := from_.results_length
  have bound : cfg.length ≤ 32 := from_.filterBound
  rw [FilterSet.runPreds, PredicateMachine.runPreds, from_.flat]
  apply run_preds_layout
  · omega
  · intro preds member p inside
    exact (from_.preds_ok preds member p inside).1

end KoAgent.CompiledSets
