import KoAgent.PushdownRefinement

/-!
# Filter lists that grow at the end

A filter added at the end is compiled after the others, in the compiler state
they leave. Its atoms come after theirs in the table, so no earlier bit of a
verdict changes its meaning, and its predicates come after their END markers, so
the walk reaches them only when every earlier filter is false.
-/

namespace KoAgent.FilterExtension

open KoAgent.FilterModel KoAgent.CelExpression KoAgent.FilterCompiler KoAgent.FilterSets
open KoAgent.CompilerShape KoAgent.CompiledSets KoAgent.AtomInterning KoAgent.PushdownRefinement
open KoAgent.ReferenceCel
open KoAgent.PredicateMachine hiding cmpField

set_option autoImplicit false

/-- The walk over a longer list goes on after the earlier filters only where
these alone drop the event. -/
theorem walk_answer_append (ev : Event) (verdict : Option U64) (i : Nat)
    (results more : List (Option (List Pred))) (small : i + results.length ≤ 32) :
    walkAnswer ev verdict i (results ++ more) =
      if walkAnswer ev verdict i results = filterDrop then
        walkAnswer ev verdict (i + results.length) more
      else walkAnswer ev verdict i results := by
  induction results generalizing i with
  | nil => simp [walkAnswer]
  | cons result rest induction =>
      rw [List.length_cons] at small
      cases result with
      | none => rfl
      | some preds =>
          have later := induction (i + 1) (by omega)
          rw [List.cons_append, walkAnswer, walkAnswer, later]
          cases conjOutcome ev verdict preds with
          | triTrue =>
              dsimp only
              rw [if_neg (filter_index_reserved i (by omega)).1]
          | triUnknown => rfl
          | triFalse =>
              dsimp only
              rw [List.length_cons, Nat.add_assoc i 1, Nat.add_comm 1]

theorem walk_answer_congr (ev : Event) (first second : Option U64) (i : Nat)
    (results : List (Option (List Pred)))
    (same : ∀ preds, some preds ∈ results →
      conjOutcome ev first preds = conjOutcome ev second preds) :
    walkAnswer ev first i results = walkAnswer ev second i results := by
  induction results generalizing i with
  | nil => rfl
  | cons result rest induction =>
      have later := induction (i + 1) fun preds member => same preds (List.mem_cons_of_mem _ member)
      cases result with
      | none => rfl
      | some preds => rw [walkAnswer, walkAnswer, same preds List.mem_cons_self, later]

theorem verdict_mask_prefix (short long : List Atom) (extends_ : short <+: long)
    (bound : long.length ≤ 64) (attrs : CgroupAttrs) (index : Nat) (inside : index < short.length) :
    (verdictMask short attrs).getLsbD index = (verdictMask long attrs).getLsbD index := by
  have longer := extends_.length_le
  have position : short[index]? = some (short.get ⟨index, inside⟩) := by simp
  rw [verdict_mask_bit short attrs index (by omega), verdict_mask_bit long attrs index (by omega),
    position, getElem_of_extension short long extends_ index _ position]

/-- Predicates over the atoms of the shorter table read the same verdict bits from
the longer one. -/
theorem conj_outcome_prefix (short long : List Atom) (extends_ : short <+: long)
    (bound : long.length ≤ 64) (attrs : CgroupAttrs) (ev : Event) (preds : List Pred)
    (ok : ∀ p ∈ preds, PredOk short.length p) :
    conjOutcome ev (some (verdictMask short attrs)) preds =
      conjOutcome ev (some (verdictMask long attrs)) preds := by
  induction preds with
  | nil => rfl
  | cons p rest induction =>
      have later := induction fun other member => ok other (List.mem_cons_of_mem _ member)
      obtain ⟨test, served⟩ := ok p List.mem_cons_self
      have head : predOutcome ev (some (verdictMask short attrs)) p =
          predOutcome ev (some (verdictMask long attrs)) p := by
        unfold predOutcome
        split_ifs with compares belongs
        · rfl
        · rfl
        · have kind : p.kind = predAttr := by
            rcases test with isCmp | isSet | isAttr
            · exact absurd isCmp compares
            · exact absurd isSet belongs
            · exact isAttr
          simp only [attrHolds, shifted_bit,
            verdict_mask_prefix short long extends_ bound attrs _ (served kind)]
      rw [conjOutcome, conjOutcome, head, later]

/-- How the answer of a longer list relates to the answer of the first `count` filters. -/
structure KeepsEarlier (count : Nat) (before after : U16) : Prop where
  decided : before ≠ filterDrop → after = before
  dropped : before = filterDrop →
    after = filterDrop ∨ after = filterUndecided ∨ after = BitVec.ofNat 16 count

theorem walk_answer_extended (ev : Event) (verdict : Option U64)
    (results : List (Option (List Pred))) (result : Option (List Pred))
    (small : results.length ≤ 32) :
    KeepsEarlier results.length (walkAnswer ev verdict 0 results)
      (walkAnswer ev verdict 0 (results ++ [result])) := by
  have split := walk_answer_append ev verdict 0 results [result] (by omega)
  rw [Nat.zero_add] at split
  constructor
  · intro decided
    rw [split, if_neg decided]
  · intro dropped
    rw [split, if_pos dropped]
    cases result with
    | none => exact Or.inr (Or.inl rfl)
    | some preds =>
        rw [walkAnswer]
        cases conjOutcome ev verdict preds with
        | triTrue => exact Or.inr (Or.inr rfl)
        | triUnknown => exact Or.inr (Or.inl rfl)
        | triFalse => exact Or.inl rfl

/-- The two compilations share the results and the atoms of the earlier filters. -/
theorem compile_extension (cel : Cel) (cfg : List Config) (f : Config) (s t : FilterSet)
    (shorter : compile cel cfg = .ok s) (longer : compile cel (cfg ++ [f]) = .ok t) :
    ∃ es results c e result last,
      CompiledFrom cel cfg s es results c ∧
        CompiledFrom cel (cfg ++ [f]) t (es ++ [e]) (results ++ [result]) last ∧
          c.atoms <+: last.atoms := by
  obtain ⟨es, results, c, from_⟩ := compile_spec cel cfg s shorter
  obtain ⟨all, more, last, whole⟩ := compile_spec cel (cfg ++ [f]) t longer
  obtain ⟨front, back, frontParsed, backParsed, rfl⟩ :
      ∃ front back, List.Forall₂ (fun f e => parseCheck cel f.expr = .ok e) cfg front ∧
        List.Forall₂ (fun f e => parseCheck cel f.expr = .ok e) [f] back ∧ all = front ++ back := by
    refine ⟨all.take cfg.length, all.drop cfg.length, ?_, ?_, (List.take_append_drop _ _).symm⟩
    · simpa using List.forall₂_take cfg.length whole.parsed
    · simpa using List.forall₂_drop cfg.length whole.parsed
  obtain rfl := parsed_unique cel cfg es front from_.parsed frontParsed
  cases backParsed with
  | cons checked none =>
      cases none with
      | nil =>
          next e =>
            have run := whole.compiled
            rw [conj_all_append, from_.compiled] at run
            simp only [conjAll, Prod.mk.injEq] at run
            have grown := (conj_well_formed e c (by
              have bounded := (conj_all_well_formed es Compiler.empty bounded_empty).1
              rw [from_.compiled] at bounded
              exact bounded)).2.1
            rw [run.2] at grown
            refine ⟨es, results, c, e, (conj e c).1, last, from_, ?_, grown⟩
            rw [run.1]
            exact whole

theorem appended_filter_keeps_decisions (cel : Cel) (cfg : List Config) (f : Config)
    (s t : FilterSet) (shorter : compile cel cfg = .ok s)
    (longer : compile cel (cfg ++ [f]) = .ok t) (ev : Event) (attrs : CgroupAttrs) :
    KeepsEarlier s.names.length (s.runPreds ev (some (s.verdictMask attrs)))
        (t.runPreds ev (some (t.verdictMask attrs))) ∧
      KeepsEarlier s.names.length (s.runPreds ev none) (t.runPreds ev none) := by
  obtain ⟨es, results, c, e, result, last, from_, whole, grown⟩ :=
    compile_extension cel cfg f s t shorter longer
  have small : results.length ≤ 32 := by
    rw [from_.results_length]
    exact from_.filterBound
  have count : s.names.length = results.length := by
    rw [from_.names, List.length_map, from_.results_length]
  have sameMasks : s.runPreds ev (some (s.verdictMask attrs)) =
      walkAnswer ev (some (t.verdictMask attrs)) 0 results := by
    rw [run_preds_flat from_, FilterSet.verdictMask, FilterSet.verdictMask, from_.atoms, whole.atoms]
    apply walk_answer_congr
    intro preds member
    exact conj_outcome_prefix c.atoms last.atoms grown whole.atomBound attrs ev preds
      (from_.preds_ok preds member)
  rw [count, sameMasks, run_preds_flat from_, run_preds_flat whole, run_preds_flat whole]
  exact ⟨walk_answer_extended ev _ results result small,
    walk_answer_extended ev none results result small⟩

def inTest : Expr :=
  .call .equals [.ident "ko_namespace", .literal (.string "test")]

def grownCel : Cel := referenceCel
  [("ko_rtt_us > 100 && ko_namespace == \"prod\"", slowProd),
    ("ko_namespace == \"test\"", inTest)]

def testFilter : Config := { name := "test", expr := "ko_namespace == \"test\"" }

def testPred : Pred := { kind := predAttr, a := 1 }

def grownSet : FilterSet where
  names := ["slow", "test"]
  asts := [slowProd, inTest]
  progs := [evalExpr slowProd, evalExpr inTest]
  atoms :=
    [{ field := attrNamespace, op := attrEq, values := ["prod"] },
      { field := attrNamespace, op := attrEq, values := ["test"] }]
  preds := [slowProdPreds, [testPred]]
  flat := slowProdPreds ++ [endMarker 0 false, testPred, endMarker 1 false]
  userspace := [false, false]

/-- The second filter brings an atom of its own and takes what the first one drops. -/
theorem appended_filter_keeps_decisions_test :
    KeepsEarlier 1 0 (grownSet.runPreds (prodEvent 250)
        (some (grownSet.verdictMask (prodEvent 250).attrs))) ∧
      KeepsEarlier 1 filterDrop (grownSet.runPreds (prodEvent 50)
        (some (grownSet.verdictMask { namespaceName := "test", pod := "", container := "" }))) := by
  have keeps := appended_filter_keeps_decisions grownCel slowProdFilters testFilter slowProdSet
    grownSet rfl rfl
  exact ⟨(keeps (prodEvent 250) (prodEvent 250).attrs).1,
    (keeps (prodEvent 50) { namespaceName := "test", pod := "", container := "" }).1⟩

end KoAgent.FilterExtension
