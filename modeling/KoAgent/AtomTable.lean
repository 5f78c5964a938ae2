import KoAgent.AttributeTests

/-!
# The shared atom table

The table is a function of the attribute tests reached, in order, over all
filters: the first test with a key brings the atom, and every later test with
that key shares it. Ids are given once and never change, so the predicates of a
filter keep naming the atoms they were compiled with.
-/

namespace KoAgent.AtomTable

open KoAgent.FilterModel KoAgent.CelExpression KoAgent.FilterCompiler KoAgent.FilterSets
open KoAgent.AtomInterning KoAgent.CompilerShape KoAgent.CompiledSets KoAgent.ProgramSize
open KoAgent.AttributeTests
open KoAgent.PredicateMachine hiding cmpField

set_option autoImplicit false

theorem intern_test_cases (t : AttrTest) (c : Compiler) :
    (∃ id, c.atomIdx t.key = some id ∧
      internTest t c = ({ kind := predAttr, a := BitVec.ofNat 8 id, b := t.neg }, c)) ∨
    (c.atomIdx t.key = none ∧
      internTest t c =
        ({ kind := predAttr, a := BitVec.ofNat 8 c.atoms.length, b := t.neg },
          { atoms := c.atoms ++ [t.atom]
            atomIdx := fun other =>
              if other = t.key then some c.atoms.length else c.atomIdx other })) := by
  cases found : c.atomIdx t.key with
  | some id =>
      refine Or.inl ⟨id, rfl, ?_⟩
      rw [AttrTest.key, keyOf] at found
      simp only [internTest, attrPred, found]
  | none =>
      refine Or.inr ⟨rfl, ?_⟩
      rw [AttrTest.key, keyOf] at found
      simp only [internTest, attrPred, found]
      rfl

theorem intern_test_indexed (t : AttrTest) (c : Compiler) (key : AtomKey) :
    ((internTest t c).2.atomIdx key).isSome ↔ (c.atomIdx key).isSome ∨ t.key = key := by
  rcases intern_test_cases t c with ⟨id, found, step⟩ | ⟨missing, step⟩
  · rw [step]
    constructor
    · exact Or.inl
    · rintro (known | rfl)
      · exact known
      · rw [found]
        rfl
  · rw [step]
    dsimp only
    split_ifs with same
    · simp [same]
    · have other : ¬t.key = key := fun equal => same equal.symm
      simp [other]

theorem intern_all_indexed (tests : List AttrTest) (c : Compiler) (key : AtomKey) :
    ((internAll tests c).2.atomIdx key).isSome ↔
      (c.atomIdx key).isSome ∨ ∃ t ∈ tests, t.key = key := by
  induction tests generalizing c with
  | nil => simp [internAll]
  | cons t rest induction =>
      rw [internAll, induction, intern_test_indexed, or_assoc, List.exists_mem_cons_iff]

def firstWith (key : AtomKey) (tests : List AttrTest) : Option AttrTest :=
  tests.find? fun t => decide (t.key = key)

theorem first_with_spec (key : AtomKey) (tests : List AttrTest) (t : AttrTest)
    (first : firstWith key tests = some t) : t.key = key ∧ t ∈ tests := by
  unfold firstWith at first
  exact ⟨by simpa using List.find?_some first, List.mem_of_find?_eq_some first⟩

theorem first_with_exists (tests : List AttrTest) (t : AttrTest) (member : t ∈ tests) :
    ∃ owner, firstWith t.key tests = some owner := by
  apply Option.isSome_iff_exists.mp
  rw [firstWith, List.find?_isSome]
  exact ⟨t, member, by simp⟩

/-- The table after interning `done`: the first test with a key owns its atom. -/
structure Indexes (done : List AttrTest) (c : Compiler) : Prop where
  owned : ∀ key t, firstWith key done = some t →
    ∃ id, c.atomIdx key = some id ∧ c.atoms[id]? = some t.atom
  absent : ∀ key, firstWith key done = none → c.atomIdx key = none

theorem indexes_empty : Indexes [] Compiler.empty where
  owned := by simp [firstWith]
  absent := fun _ _ => rfl

theorem first_with_snoc (key : AtomKey) (done : List AttrTest) (t : AttrTest) :
    firstWith key (done ++ [t]) =
      match firstWith key done with
      | some first => some first
      | none => if t.key = key then some t else none := by
  unfold firstWith
  rw [List.find?_append]
  cases List.find? (fun u => decide (u.key = key)) done with
  | some first => rfl
  | none =>
      by_cases same : t.key = key
      · simp [same]
      · simp [same]

theorem intern_test_indexes (done : List AttrTest) (t : AttrTest) (c : Compiler)
    (before : Indexes done c) : Indexes (done ++ [t]) (internTest t c).2 := by
  rcases intern_test_cases t c with ⟨id, found, step⟩ | ⟨missing, step⟩
  · -- The key is known, so a first test with it is already in `done`.
    have earlier : ∀ key, firstWith key (done ++ [t]) = firstWith key done := by
      intro key
      rw [first_with_snoc]
      cases first : firstWith key done with
      | some owner => rfl
      | none =>
          dsimp only
          split_ifs with same
          · subst same
            rw [before.absent _ first] at found
            cases found
          · rfl
    rw [step]
    constructor
    · intro key owner first
      rw [earlier] at first
      exact before.owned key owner first
    · intro key first
      rw [earlier] at first
      exact before.absent key first
  · rw [step]
    constructor
    · intro key owner first
      rw [first_with_snoc] at first
      cases known : firstWith key done with
      | some other =>
          rw [known] at first
          obtain rfl := Option.some.inj first
          obtain ⟨id, index, position⟩ := before.owned key other known
          have distinct : key ≠ t.key := by
            rintro rfl
            rw [missing] at index
            cases index
          exact ⟨id, (if_neg distinct).trans index,
            getElem_of_extension _ _ (List.prefix_append _ _) id _ position⟩
      | none =>
          rw [known] at first
          dsimp only at first
          split_ifs at first with same
          obtain rfl := Option.some.inj first
          exact ⟨c.atoms.length, if_pos same.symm, List.getElem?_concat_length⟩
    · intro key first
      rw [first_with_snoc] at first
      cases known : firstWith key done with
      | some other =>
          rw [known] at first
          cases first
      | none =>
          rw [known] at first
          dsimp only at first
          split_ifs at first with same
          have distinct : key ≠ t.key := fun equal => same equal.symm
          exact (if_neg distinct).trans (before.absent key known)

theorem intern_all_indexes (tests done : List AttrTest) (c : Compiler) (before : Indexes done c) :
    Indexes (done ++ tests) (internAll tests c).2 := by
  induction tests generalizing done c with
  | nil =>
      rw [List.append_nil]
      exact before
  | cons t rest induction =>
      have next := induction (done ++ [t]) _ (intern_test_indexes done t c before)
      rw [List.append_assoc, List.singleton_append] at next
      exact next

/-- The predicate carries the test's polarity and the id that `final` has for its key. -/
def Names (final : Compiler) (t : AttrTest) (p : Pred) : Prop :=
  ∃ id, final.atomIdx t.key = some id ∧
    p = { kind := predAttr, a := BitVec.ofNat 8 id, b := t.neg }

/-- Ids are never changed once given. -/
def Extends (earlier later : Compiler) : Prop :=
  ∀ key id, earlier.atomIdx key = some id → later.atomIdx key = some id

theorem intern_test_extends (t : AttrTest) (c : Compiler) : Extends c (internTest t c).2 := by
  intro key id found
  rcases intern_test_cases t c with ⟨_, _, step⟩ | ⟨missing, step⟩
  · rw [step]
    exact found
  · rw [step]
    have distinct : key ≠ t.key := by
      rintro rfl
      rw [missing] at found
      cases found
    exact (if_neg distinct).trans found

theorem intern_all_extends (tests : List AttrTest) (c : Compiler) :
    Extends c (internAll tests c).2 := by
  induction tests generalizing c with
  | nil => exact fun _ _ found => found
  | cons t rest induction =>
      intro key id found
      exact induction _ key id (intern_test_extends t c key id found)

theorem intern_test_names (t : AttrTest) (c final : Compiler)
    (later : Extends (internTest t c).2 final) : Names final t (internTest t c).1 := by
  rcases intern_test_cases t c with ⟨id, found, step⟩ | ⟨_, step⟩
  · rw [step] at later ⊢
    exact ⟨id, later _ _ found, rfl⟩
  · rw [step] at later ⊢
    exact ⟨c.atoms.length, later _ _ (if_pos rfl), rfl⟩

theorem intern_all_names (tests : List AttrTest) (c final : Compiler)
    (later : Extends (internAll tests c).2 final) :
    List.Forall₂ (Names final) tests (internAll tests c).1 := by
  induction tests generalizing c with
  | nil => exact .nil
  | cons t rest induction =>
      refine .cons (intern_test_names t c final ?_) (induction _ later)
      intro key id found
      exact later key id (intern_all_extends rest _ key id found)

theorem conj_all_state (es : List Expr) (c : Compiler) :
    (conjAll es c).2 = (internAll (es.flatMap reached) c).2 := by
  induction es generalizing c with
  | nil => rfl
  | cons e rest induction =>
      rw [conjAll, induction, ((conj_interns e).1 c).1, List.flatMap_cons, intern_all_append]

/-- Filter by filter, the attribute predicates name the tests of the expression. -/
theorem conj_all_names (es : List Expr) (c final : Compiler)
    (later : Extends (conjAll es c).2 final) :
    List.Forall₂ (fun e result => ∀ preds, result = some preds →
      List.Forall₂ (Names final) (reached e) (attrPreds preds)) es (conjAll es c).1 := by
  induction es generalizing c with
  | nil => exact .nil
  | cons e rest induction =>
      refine .cons ?_ (induction _ later)
      intro preds pushed
      obtain ⟨state, tests⟩ := (conj_interns e).1 c
      rw [tests preds pushed]
      apply intern_all_names
      intro key id found
      apply later
      rw [conjAll, conj_all_state rest]
      apply intern_all_extends
      rw [state]
      exact found

def namedPred (final : Compiler) (t : AttrTest) : Pred :=
  { kind := predAttr, a := BitVec.ofNat 8 ((final.atomIdx t.key).getD 0), b := t.neg }

theorem names_map (final : Compiler) (tests : List AttrTest) (preds : List Pred)
    (names : List.Forall₂ (Names final) tests preds) :
    preds = tests.map (namedPred final) ∧ ∀ t ∈ tests, Names final t (namedPred final t) := by
  induction names with
  | nil => exact ⟨rfl, by simp⟩
  | @cons t p tests preds head _ induction =>
      obtain ⟨id, index, rfl⟩ := head
      have same : namedPred final t = { kind := predAttr, a := BitVec.ofNat 8 id, b := t.neg } := by
        rw [namedPred, index, Option.getD_some]
      obtain ⟨equal, later⟩ := induction
      refine ⟨by rw [List.map_cons, same, equal], ?_⟩
      intro u member
      rcases List.mem_cons.mp member with rfl | rest
      · exact ⟨id, index, same⟩
      · exact later u rest

def pushable (e : Expr) : Bool := (predCount e).isSome

theorem conj_all_pushable (es : List Expr) (c : Compiler) :
    List.Forall₂ (fun e result => result.isSome = pushable e) es (conjAll es c).1 := by
  induction es generalizing c with
  | nil => exact .nil
  | cons e rest induction =>
      refine .cons ?_ (induction _)
      rw [pushable, ← (conj_sized e).1 c, Option.isSome_map]

end KoAgent.AtomTable
