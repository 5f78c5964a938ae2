import KoAgent.AtomTable

/-!
# Attribute tests that share an atom

Atoms are shared by a printed key, and the printed form of a list does not say
where one string ends and the next begins. A test is represented by its own atom
exactly when the test that first brought its key has the same members.
-/

namespace KoAgent.SharedAtoms

open KoAgent.FilterModel KoAgent.CelExpression KoAgent.FilterCompiler KoAgent.FilterSets
open KoAgent.AtomInterning KoAgent.CompilerShape KoAgent.CompiledSets KoAgent.ProgramSize
open KoAgent.ReferenceCel KoAgent.AttributeTests KoAgent.AtomTable
open KoAgent.PredicateMachine hiding cmpField

set_option autoImplicit false

/-- What the test says of the attributes: the field's value is one of the test's. -/
def truth (t : AttrTest) (attrs : CgroupAttrs) : Bool :=
  t.atom.values.contains (attrValue t.atom.field attrs)

structure Represents (atoms : List Atom) (t : AttrTest) (p : Pred) : Prop where
  kind : p.kind = predAttr
  polarity : p.b = t.neg
  inside : p.a.toNat < atoms.length
  bit : ∀ attrs, (verdictMask atoms attrs).getLsbD p.a.toNat = truth t attrs

def SameMembers (left right : AttrTest) : Prop :=
  ∀ value, value ∈ left.atom.values ↔ value ∈ right.atom.values

theorem atom_eval_shaped (t : AttrTest) (shaped : Shaped t) (attrs : CgroupAttrs) :
    atomEval t.atom attrs = truth t attrs := by
  rcases shaped.values with ⟨op, value, values⟩ | op
  · simp [atomEval, truth, op, values, beq_eq_decide]
  · simp only [atomEval, op, truth, List.contains_eq_any_beq, if_true,
      show attrIn ≠ attrEq by decide, show attrIn ≠ attrNeq by decide, if_false]

theorem attr_value_surjective (field : U8) (known : attrField field) (value : String) :
    ∃ attrs, attrValue field attrs = value := by
  rcases known with rfl | rfl | rfl
  · exact ⟨{ namespaceName := value, container := "", pod := "" }, rfl⟩
  · exact ⟨{ namespaceName := "", container := value, pod := "" }, rfl⟩
  · exact ⟨{ namespaceName := "", container := "", pod := value }, rfl⟩

theorem truth_eq_iff (left right : AttrTest) (fields : left.atom.field = right.atom.field)
    (known : attrField right.atom.field) :
    (∀ attrs, truth left attrs = truth right attrs) ↔ SameMembers left right := by
  constructor
  · intro same value
    obtain ⟨attrs, chosen⟩ := attr_value_surjective _ known value
    have equal := same attrs
    simp only [truth, fields, chosen] at equal
    rw [← List.contains_iff_mem, ← List.contains_iff_mem, equal]
  · intro same attrs
    rw [truth, truth, fields, Bool.eq_iff_iff, List.contains_iff_mem, List.contains_iff_mem]
    exact same _

/-- A named test is represented exactly when the owner of its key has its members. -/
theorem represents_iff (done : List AttrTest) (final : Compiler) (indexes : Indexes done final)
    (bound : final.atoms.length ≤ 64) (t owner : AttrTest) (shaped : Shaped t)
    (ownerShaped : Shaped owner) (first : firstWith t.key done = some owner) (p : Pred)
    (named : Names final t p) : Represents final.atoms t p ↔ SameMembers owner t := by
  obtain ⟨id, index, rfl⟩ := named
  obtain ⟨found, same, position⟩ := indexes.owned t.key owner first
  obtain rfl : found = id := Option.some.inj (same.symm.trans index)
  have inside := (List.getElem?_eq_some_iff.mp position).1
  have small : (BitVec.ofNat 8 found).toNat = found := by
    rw [BitVec.toNat_ofNat]
    exact Nat.mod_eq_of_lt (by omega)
  have bit : ∀ attrs, (verdictMask final.atoms attrs).getLsbD found = truth owner attrs := by
    intro attrs
    rw [verdict_mask_bit final.atoms attrs found (by omega), position]
    exact atom_eval_shaped owner ownerShaped attrs
  have fields : owner.atom.field = t.atom.field :=
    congrArg AtomKey.field (first_with_spec _ _ _ first).1
  rw [← truth_eq_iff owner t fields shaped.field]
  constructor
  · intro represents attrs
    rw [← bit attrs, ← represents.bit attrs, small]
  · intro agree
    refine ⟨rfl, rfl, by rw [small]; exact inside, ?_⟩
    intro attrs
    rw [small, bit attrs, agree attrs]

/-- An equality test is its own key: `fmt.Sprint` of one string loses nothing. -/
theorem equal_tests_same_members (owner t : AttrTest) (ownerShaped : Shaped owner)
    (shaped : Shaped t) (key : owner.key = t.key) (equality : t.atom.op ≠ attrIn) :
    SameMembers owner t := by
  obtain ⟨op, value, values⟩ := shaped.values.resolve_right equality
  have ops : owner.atom.op = t.atom.op := congrArg AtomKey.op key
  obtain ⟨_, ownerValue, ownerValues⟩ := ownerShaped.values.resolve_right (by rw [ops]; exact equality)
  have printed : sprint owner.atom.values = sprint t.atom.values := congrArg AtomKey.vals key
  rw [ownerValues, values] at printed
  rw [SameMembers, ownerValues, values, sprint_single _ _ printed]
  exact fun _ => Iff.rfl

/-- A pushed-down filter of the set, with its predicates. -/
def PushedFilter (s : FilterSet) (e : Expr) (preds : List Pred) : Prop :=
  ∃ i : Nat, s.asts[i]? = some e ∧ s.userspace[i]? = some false ∧ s.preds[i]? = some preds

/-- Every pushed attribute test has a predicate that reads its own truth from the
verdict, and predicates share an atom only where their tests agree. -/
structure Unconfused (s : FilterSet) : Prop where
  bound : s.atoms.length ≤ 64
  represented : ∀ e preds, PushedFilter s e preds →
    List.Forall₂ (Represents s.atoms) (reached e) (attrPreds preds)
  shared : ∀ e preds e' preds', PushedFilter s e preds → PushedFilter s e' preds' →
    ∀ t p u q, (t, p) ∈ (reached e).zip (attrPreds preds) →
      (u, q) ∈ (reached e').zip (attrPreds preds') → p.a = q.a →
        ∀ attrs, truth t attrs = truth u attrs

/-- No pushed list test has the printed key of an earlier list with other members. -/
def Unambiguous (es : List Expr) : Prop :=
  ∀ e ∈ es, pushable e = true → ∀ t ∈ reached e, t.atom.op = attrIn →
    ∀ owner, firstWith t.key (es.flatMap reached) = some owner → SameMembers owner t

theorem compile_preds (cel : Cel) (cfg : List Config) (s : FilterSet)
    (accepted : compile cel cfg = .ok s) :
    s.preds = (conjAll s.asts Compiler.empty).1.map fun result => result.getD [] := by
  unfold compile at accepted
  split_ifs at accepted
  cases loop : compileFilters cel CompileState.start cfg with
  | error problem => simp [loop] at accepted
  | ok last =>
      simp only [loop] at accepted
      split_ifs at accepted
      obtain ⟨es, _, _, _, asts, preds, _⟩ := compile_filters_spec cel cfg _ last loop (Nat.zero_le _)
      cases programs : celPrograms cel last.asts with
      | error problem => simp [programs] at accepted
      | ok progs =>
          simp only [programs, Except.ok.injEq] at accepted
          subst accepted
          dsimp only
          rw [preds, asts]
          rfl

/-- A pushed-down filter is one that `conj` accepted. -/
theorem pushed_filter_iff {cel : Cel} {cfg : List Config} {s : FilterSet} {es : List Expr}
    {results : List (Option (List Pred))} {c : Compiler}
    (from_ : CompiledFrom cel cfg s es results c)
    (filled : s.preds = results.map fun result => result.getD []) (e : Expr) (preds : List Pred) :
    PushedFilter s e preds ↔ ∃ i : Nat, es[i]? = some e ∧ results[i]? = some (some preds) := by
  have slot : ∀ i : Nat, (s.userspace[i]? = some false ∧ s.preds[i]? = some preds) ↔
      results[i]? = some (some preds) := by
    intro i
    rw [from_.userspace, filled, List.getElem?_map, List.getElem?_map]
    rcases results[i]? with _ | _ | found
    · simp
    · simp
    · simp
  rw [PushedFilter, from_.asts]
  constructor
  · rintro ⟨i, expr, marks⟩
    exact ⟨i, expr, (slot i).mp marks⟩
  · rintro ⟨i, expr, result⟩
    exact ⟨i, expr, (slot i).mpr result⟩

/-- What `Compile` makes of a filter list, for the tests of its pushed-down filters. -/
structure TestsNamed (s : FilterSet) (es : List Expr) (c : Compiler) : Prop where
  atoms : s.atoms = c.atoms
  indexes : Indexes (es.flatMap reached) c
  pushed : ∀ e preds, PushedFilter s e preds → e ∈ es ∧ pushable e = true ∧
    attrPreds preds = (reached e).map (namedPred c) ∧
      ∀ t ∈ reached e, Names c t (namedPred c t)
  complete : ∀ e ∈ es, pushable e = true → ∃ preds, PushedFilter s e preds

theorem compile_tests_named (cel : Cel) (cfg : List Config) (s : FilterSet)
    (accepted : compile cel cfg = .ok s) :
    ∃ c, TestsNamed s s.asts c ∧ c.atoms.length ≤ 64 := by
  obtain ⟨es, results, c, from_⟩ := compile_spec cel cfg s accepted
  have filled : s.preds = results.map fun result => result.getD [] := by
    rw [compile_preds cel cfg s accepted, from_.asts, from_.compiled]
  have names := conj_all_names es Compiler.empty c
    (by rw [from_.compiled]; exact fun _ _ found => found)
  have pushables := conj_all_pushable es Compiler.empty
  have state := conj_all_state es Compiler.empty
  rw [from_.compiled] at names pushables state
  refine ⟨c, ?_, from_.atomBound⟩
  rw [from_.asts]
  refine ⟨from_.atoms, ?_, ?_, ?_⟩
  · have table := intern_all_indexes (es.flatMap reached) [] Compiler.empty indexes_empty
    rw [List.nil_append, ← state] at table
    exact table
  · intro e preds filter
    obtain ⟨i, expr, result⟩ := (pushed_filter_iff from_ filled e preds).mp filter
    obtain ⟨inside, rfl⟩ := List.getElem?_eq_some_iff.mp expr
    obtain ⟨bound, value⟩ := List.getElem?_eq_some_iff.mp result
    obtain ⟨same, named⟩ := names_map c _ _ (names.get inside bound preds value)
    have pushes : results[i].isSome = pushable es[i] := pushables.get inside bound
    rw [value] at pushes
    exact ⟨List.getElem_mem inside, pushes.symm, same, named⟩
  · intro e member pushes
    obtain ⟨i, inside, rfl⟩ := List.mem_iff_getElem.mp member
    have bound : i < results.length := by
      rw [← pushables.length_eq]
      exact inside
    have isSome : results[i].isSome = pushable es[i] := pushables.get inside bound
    rw [pushes] at isSome
    obtain ⟨preds, value⟩ := Option.isSome_iff_exists.mp isSome
    refine ⟨preds, (pushed_filter_iff from_ filled _ preds).mpr ⟨i, ?_, ?_⟩⟩
    · exact List.getElem?_eq_getElem inside
    · rw [List.getElem?_eq_getElem bound, value]

theorem atoms_unconfused_iff (cel : Cel) (cfg : List Config) (s : FilterSet)
    (accepted : compile cel cfg = .ok s) : Unconfused s ↔ Unambiguous s.asts := by
  obtain ⟨c, named, bound⟩ := compile_tests_named cel cfg s accepted
  have represented : ∀ e ∈ s.asts, ∀ t ∈ reached e, Names c t (namedPred c t) →
      ∀ owner, firstWith t.key (s.asts.flatMap reached) = some owner →
        (Represents s.atoms t (namedPred c t) ↔ SameMembers owner t) := by
    intro e member t inside names owner first
    obtain ⟨key, earlier⟩ := first_with_spec _ _ _ first
    obtain ⟨other, _, reachedThere⟩ := List.mem_flatMap.mp earlier
    rw [named.atoms]
    exact represents_iff _ c named.indexes bound t owner ((reached_shaped e).1 t inside)
      ((reached_shaped other).1 owner reachedThere) first _ names
  constructor
  · intro unconfused e member pushes t inside _ owner first
    obtain ⟨preds, filter⟩ := named.complete e member pushes
    obtain ⟨_, _, same, names⟩ := named.pushed e preds filter
    have all := unconfused.represented e preds filter
    rw [same, List.forall₂_map_right_iff, List.forall₂_same] at all
    exact (represented e member t inside (names t inside) owner first).mp (all t inside)
  · intro unambiguous
    have each : ∀ e preds, PushedFilter s e preds → ∀ t ∈ reached e,
        Represents s.atoms t (namedPred c t) := by
      intro e preds filter t inside
      obtain ⟨member, pushes, _, names⟩ := named.pushed e preds filter
      obtain ⟨owner, first⟩ := first_with_exists (s.asts.flatMap reached) t
        (List.mem_flatMap.mpr ⟨e, member, inside⟩)
      apply (represented e member t inside (names t inside) owner first).mpr
      by_cases listed : t.atom.op = attrIn
      · exact unambiguous e member pushes t inside listed owner first
      · obtain ⟨key, earlier⟩ := first_with_spec _ _ _ first
        obtain ⟨other, _, reachedThere⟩ := List.mem_flatMap.mp earlier
        exact equal_tests_same_members owner t ((reached_shaped other).1 owner reachedThere)
          ((reached_shaped e).1 t inside) key listed
    have all : ∀ e preds, PushedFilter s e preds →
        List.Forall₂ (Represents s.atoms) (reached e) (attrPreds preds) := by
      intro e preds filter
      rw [(named.pushed e preds filter).2.2.1, List.forall₂_map_right_iff, List.forall₂_same]
      exact each e preds filter
    refine ⟨by rw [named.atoms]; exact bound, all, ?_⟩
    intro e preds e' preds' first second t p u q one two same attrs
    have left : Represents s.atoms t p := List.forall₂_zip (all e preds first) one
    have right : Represents s.atoms u q := List.forall₂_zip (all e' preds' second) two
    rw [← left.bit attrs, same, right.bit attrs]

def podIn (values : List String) : Expr :=
  .call .inList [.ident "ko_pod", .list (values.map fun value => .literal (.string value))]

def listCel : Cel := referenceCel
  [("ko_pod in [\"a b\"]", podIn ["a b"]), ("ko_pod in [\"a\", \"b\"]", podIn ["a", "b"])]

def listSet (names : List String) (es : List Expr) (values : List String) : FilterSet where
  names := names
  asts := es
  progs := es.map evalExpr
  atoms := [{ field := attrPod, op := attrIn, values := values }]
  preds := es.map fun _ => [{ kind := predAttr, a := 0 }]
  flat := (List.range es.length).flatMap fun i => [{ kind := predAttr, a := 0 }, endMarker i false]
  userspace := es.map fun _ => false

def blankFilters : List Config :=
  [{ name := "one", expr := "ko_pod in [\"a b\"]" }, { name := "two", expr := "ko_pod in [\"a\", \"b\"]" }]

/-- `["a b"]` and `["a", "b"]` print alike, so the second test gets the atom of the first. -/
theorem atoms_confused_by_blank :
    compile listCel blankFilters =
        .ok (listSet ["one", "two"] [podIn ["a b"], podIn ["a", "b"]] ["a b"]) ∧
      ¬Unconfused (listSet ["one", "two"] [podIn ["a b"], podIn ["a", "b"]] ["a b"]) := by
  refine ⟨rfl, ?_⟩
  intro unconfused
  have represented := unconfused.represented (podIn ["a", "b"]) [{ kind := predAttr, a := 0 }]
    ⟨1, rfl, rfl, rfl⟩
  cases represented with
  | cons head _ =>
      have bit := head.bit { namespaceName := "", container := "", pod := "a" }
      exact absurd bit (by decide)

def pairFilters : List Config :=
  [{ name := "one", expr := "ko_pod in [\"a\", \"b\"]" }, { name := "two", expr := "ko_pod in [\"a\", \"b\"]" }]

/-- The same list in two filters is one atom. -/
theorem atoms_unconfused_iff_pair :
    compile listCel pairFilters =
        .ok (listSet ["one", "two"] [podIn ["a", "b"], podIn ["a", "b"]] ["a", "b"]) ∧
      Unconfused (listSet ["one", "two"] [podIn ["a", "b"], podIn ["a", "b"]] ["a", "b"]) := by
  refine ⟨rfl, (atoms_unconfused_iff listCel pairFilters
    (listSet ["one", "two"] [podIn ["a", "b"], podIn ["a", "b"]] ["a", "b"]) rfl).mpr ?_⟩
  intro e member _ t inside _ owner first
  have only : ∀ u, u ∈ reached e → u = memberTest attrPod ["a", "b"] := by
    intro u reachedThere
    have same : e = podIn ["a", "b"] := by simpa [listSet] using member
    subst same
    exact List.mem_singleton.mp reachedThere
  obtain rfl := only t inside
  obtain rfl := Option.some.inj (show some (memberTest attrPod ["a", "b"]) = some owner from first)
  exact fun _ => Iff.rfl

end KoAgent.SharedAtoms
