import Mathlib.Data.List.Induction
import Mathlib.Data.List.Nodup
import Mathlib.Logic.Function.Basic

/-!
# Tables filled by a loop

A loop writes `value item` under `key item` for each item of a list in turn, so
a later write under the same key replaces an earlier one. A list of pairs with
distinct keys is a table as it stands.
-/

namespace KoAgent.KeyedTables

set_option autoImplicit false

section Tables

variable {Item Key Value : Type} [DecidableEq Key] (key : Item → Key) (value : Item → Value)

def fillFrom (table : Key → Option Value) (items : List Item) : Key → Option Value :=
  items.foldl (fun table item => Function.update table (key item) (some (value item))) table

def fill (items : List Item) : Key → Option Value := fillFrom key value (fun _ => none) items

/-- An entry of the filled table is the value of some item with that key, or it was
there before and no item has the key. -/
theorem fill_from_cases (items : List Item) (table : Key → Option Value) (k : Key) :
    (∃ item ∈ items, key item = k ∧ fillFrom key value table items k = some (value item)) ∨
      ((∀ item ∈ items, key item ≠ k) ∧ fillFrom key value table items k = table k) := by
  induction items generalizing table with
  | nil => exact Or.inr ⟨by simp, rfl⟩
  | cons first rest induction =>
      rcases induction (Function.update table (key first) (some (value first))) with
        ⟨item, member, same, entry⟩ | ⟨absent, entry⟩
      · exact Or.inl ⟨item, List.mem_cons_of_mem first member, same, entry⟩
      · by_cases same : key first = k
        · refine Or.inl ⟨first, List.mem_cons_self, same, entry.trans ?_⟩
          rw [← same, Function.update_self]
        · refine Or.inr ⟨?_, entry.trans (Function.update_of_ne (Ne.symm same) _ _)⟩
          intro item member
          rcases List.mem_cons.mp member with rfl | later
          · exact same
          · exact absent item later

/-- The last item with a key decides what is stored under it. -/
theorem fill_last (items : List Item) (k : Key) :
    fill key value items k =
      (items.reverse.find? fun item => decide (key item = k)).map value := by
  induction items using List.reverseRecOn with
  | nil => rfl
  | append_singleton items last induction =>
      rw [fill, fillFrom] at induction
      rw [fill, fillFrom, List.foldl_append, List.reverse_append, List.foldl_cons, List.foldl_nil,
        List.reverse_singleton, List.singleton_append]
      by_cases same : key last = k
      · rw [List.find?_cons_of_pos (by simpa using same), ← same, Function.update_self,
          Option.map_some]
      · rw [List.find?_cons_of_neg (by simpa using same), Function.update_of_ne (Ne.symm same),
          induction]

/-- An item whose key is written with one value only is found. -/
theorem fill_of_member (items : List Item) (item : Item) (member : item ∈ items)
    (agreed : ∀ other ∈ items, key other = key item → value other = value item) :
    fill key value items (key item) = some (value item) := by
  rcases fill_from_cases key value items (fun _ => none) (key item) with
    ⟨other, inside, same, entry⟩ | ⟨absent, _⟩
  · rw [fill, entry, agreed other inside same]
  · exact absurd rfl (absent item member)

end Tables

theorem ascending_nodup {Item : Type} (place : Item → Nat) (items : List Item)
    (ascending : items.Pairwise fun left right => place left < place right) : items.Nodup := by
  have places : (items.map place).Pairwise (· < ·) := List.pairwise_map.mpr ascending
  exact List.Nodup.of_map place places.nodup

theorem lookup_some_iff {Key Value : Type} [DecidableEq Key] (entries : List (Key × Value))
    (distinct : (entries.map Prod.fst).Nodup) (key : Key) (value : Value) :
    entries.lookup key = some value ↔ (key, value) ∈ entries := by
  induction entries with
  | nil => simp
  | cons first rest induction =>
      rw [List.map_cons, List.nodup_cons] at distinct
      rw [List.lookup_cons, List.mem_cons]
      by_cases same : key = first.1
      · subst same
        have absent : (first.1, value) ∉ rest := by
          intro member
          exact distinct.1 (List.mem_map.mpr ⟨_, member, rfl⟩)
        simp [absent, Prod.ext_iff, eq_comm]
      · have other : (key, value) ≠ first := by
          intro equal
          exact same (congrArg Prod.fst equal)
        have differs : (key == first.1) = false := by simpa using same
        rw [differs]
        simp only [other, false_or]
        exact induction distinct.2

end KoAgent.KeyedTables
