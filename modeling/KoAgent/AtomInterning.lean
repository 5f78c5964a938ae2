import KoAgent.FilterCompiler
import KoAgent.PredicateMachine

/-!
# Interned attribute atoms

The compiler shares one atom table between all filters and finds an atom by a
printed key. The key is injective on the tests that one of two conditions makes
unambiguous: a single value, or a list of values without blanks. On those, an
attribute predicate names the atom of its own test, and the bit it reads from a
verdict mask is the value of that test.
-/

namespace KoAgent.AtomInterning

open KoAgent.FilterModel KoAgent.FilterCompiler KoAgent.PredicateMachine

set_option autoImplicit false

def keyOf (a : Atom) : AtomKey := { field := a.field, op := a.op, vals := sprint a.values }

def Spaceless (values : List String) : Prop :=
  values ≠ [] ∧ ∀ value ∈ values, ' ' ∉ value.toList

/-- The attribute tests whose printed key determines them. -/
def Admissible (a : Atom) : Prop :=
  (a.op = attrEq ∧ ∃ value, a.values = [value]) ∨ (a.op = attrIn ∧ Spaceless a.values)

theorem sprint_body (left right : List String) (same : sprint left = sprint right) :
    [' '].intercalate (left.map String.toList) = [' '].intercalate (right.map String.toList) := by
  have texts := congrArg String.toList same
  simp only [sprint, String.toList_ofList, List.cons_append, List.cons.injEq, true_and] at texts
  exact List.append_cancel_right texts

theorem sprint_single (left right : String) (same : sprint [left] = sprint [right]) :
    left = right := by
  have body := sprint_body [left] [right] same
  exact String.toList_inj.mp (by simpa using body)

theorem sprint_spaceless (left right : List String) (leftPlain : Spaceless left)
    (rightPlain : Spaceless right) (same : sprint left = sprint right) : left = right := by
  have body := sprint_body left right same
  have recover : ∀ values, Spaceless values →
      ([' '].intercalate (values.map String.toList)).splitOn ' ' = values.map String.toList := by
    intro values plain
    apply List.splitOn_intercalate
    · intro text member
      obtain ⟨value, inside, rfl⟩ := List.mem_map.mp member
      exact plain.2 value inside
    · simpa using plain.1
  have texts : left.map String.toList = right.map String.toList := by
    rw [← recover left leftPlain, body, recover right rightPlain]
  exact List.map_injective_iff.mpr (fun _ _ equal => String.toList_inj.mp equal) texts

theorem key_injective (left right : Atom) (leftOk : Admissible left) (rightOk : Admissible right)
    (same : keyOf left = keyOf right) : left = right := by
  obtain ⟨leftField, leftOp, leftValues⟩ := left
  obtain ⟨rightField, rightOp, rightValues⟩ := right
  simp only [keyOf, AtomKey.mk.injEq] at same
  obtain ⟨rfl, rfl, printed⟩ := same
  have values : leftValues = rightValues := by
    rcases leftOk with ⟨opLeft, leftValue, rfl⟩ | ⟨opLeft, leftPlain⟩ <;>
      rcases rightOk with ⟨opRight, rightValue, rfl⟩ | ⟨opRight, rightPlain⟩
    · rw [sprint_single _ _ printed]
    · exact absurd (opLeft.symm.trans opRight) (by decide)
    · exact absurd (opLeft.symm.trans opRight) (by decide)
    · exact sprint_spaceless _ _ leftPlain rightPlain printed
  rw [values]

/-- The table is consistent: the index finds, for a key, an atom with that key. -/
structure Interned (c : Compiler) : Prop where
  indexed : ∀ key id, c.atomIdx key = some id → ∃ a, c.atoms[id]? = some a ∧ keyOf a = key
  admissible : ∀ a ∈ c.atoms, Admissible a

theorem interned_empty : Interned Compiler.empty where
  indexed := by
    intro key id found
    cases found
  admissible := by
    intro a member
    cases member

/-- What interning one admissible test does, whether its atom is new or shared. -/
theorem attr_pred_spec (field op : U8) (values : List String) (neg : U8) (c : Compiler)
    (interned : Interned c)
    (ok : Admissible { field := field, op := op, values := values }) :
    Interned (attrPred field op values neg c).2 ∧
      c.atoms <+: (attrPred field op values neg c).2.atoms ∧
      ∃ id, (attrPred field op values neg c).1 =
          { kind := predAttr, a := BitVec.ofNat 8 id, b := neg } ∧
        (attrPred field op values neg c).2.atoms[id]? =
          some { field := field, op := op, values := values } := by
  cases found : c.atomIdx { field := field, op := op, vals := sprint values } with
  | some id =>
      obtain ⟨a, position, key⟩ := interned.indexed _ _ found
      have same := key_injective a { field := field, op := op, values := values }
        (interned.admissible a (List.mem_of_getElem? position)) ok key
      simp only [attrPred, found]
      exact ⟨interned, List.prefix_rfl, id, rfl, by rw [position, same]⟩
  | none =>
      simp only [attrPred, found]
      refine ⟨⟨?_, ?_⟩, List.prefix_append _ _, c.atoms.length, rfl, by simp⟩
      · intro key id lookup
        dsimp only at lookup ⊢
        split_ifs at lookup with same
        · obtain rfl := Option.some.inj lookup
          exact ⟨_, List.getElem?_concat_length, by rw [same]; rfl⟩
        · obtain ⟨a, position, equal⟩ := interned.indexed key id lookup
          have bound := (List.getElem?_eq_some_iff.mp position).1
          exact ⟨a, by rw [List.getElem?_append_left bound, position], equal⟩
      · intro a member
        rcases List.mem_append.mp member with old | new
        · exact interned.admissible a old
        · rw [List.mem_singleton.mp new]
          exact ok

/-- Under any later table of at most 64 atoms the predicate reads its own test. -/
theorem attr_holds_of_atom (final : List Atom) (attrs : CgroupAttrs) (id : Nat) (a : Atom)
    (neg : U8) (position : final[id]? = some a) (bound : final.length ≤ 64) :
    attrHolds (verdictMask final attrs)
        { kind := predAttr, a := BitVec.ofNat 8 id, b := neg } =
      (atomEval a attrs == (neg == 0)) := by
  have inside := (List.getElem?_eq_some_iff.mp position).1
  have small : (BitVec.ofNat 8 id).toNat = id := by
    rw [BitVec.toNat_ofNat]
    exact Nat.mod_eq_of_lt (by omega)
  rw [attrHolds, small, shifted_bit, verdict_mask_bit final attrs id (by omega), position]
  rfl

theorem getElem_of_extension {Item : Type} (short long : List Item) (extends_ : short <+: long)
    (index : Nat) (item : Item) (position : short[index]? = some item) :
    long[index]? = some item := by
  obtain ⟨rest, rfl⟩ := extends_
  rw [List.getElem?_append_left (List.getElem?_eq_some_iff.mp position).1, position]

end KoAgent.AtomInterning
