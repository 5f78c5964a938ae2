import KoAgent.VerdictReconciliation

/-!
# Rounds of `syncVerdicts`

One `syncOnce` may leave stale keys in a crowded map, because its walk ends after
`max_entries` steps. The ticker calls it again every thirty seconds. While the
containers stay as they are every round deletes a number of stale keys that only
depends on how many containers there are, so the map is reconciled after a number
of rounds known in advance, and it stays so.
-/

namespace KoAgent.ReconciliationRounds

open KoAgent.FilterModel KoAgent.FilterSets KoAgent.PushdownRefinement KoAgent.TableWalks
open KoAgent.VerdictReconciliation

set_option autoImplicit false

section Rounds

variable {slot : U64 ↪ Nat} (set : FilterSet) (accepts : U64 → Bool) (snapshot : AttrsSnapshot)

/-- So many ticks of `syncVerdicts` with one snapshot. -/
def syncRounds : Nat → Option (Table U64 slot) → Option (Table U64 slot)
  | 0, verdictMap => verdictMap
  | rounds + 1, verdictMap =>
      syncRounds rounds (syncOnce set accepts (some snapshot) verdictMap)

def staleCount (table : Table U64 slot) : Nat := kindCount snapshot.stale table.entries

/-- The stale keys that one round deletes at least, if there are so many. -/
def roundRate : Nat := (maxEntries + 1) / (snapshot.ids.length + 1)

def reconcileOnce (table : Table U64 slot) : Table U64 slot :=
  removeStale snapshot (updated set snapshot table)

theorem kind_count_keys (kind : U64 → Bool) (table : Table U64 slot) :
    kindCount kind table.entries = (table.keys.filter kind).length := by
  rw [kindCount, Table.keys, ← List.countP_eq_length_filter, List.countP_map]
  rfl

theorem updated_stale_count (table : Table U64 slot) :
    staleCount snapshot (updated set snapshot table) = staleCount snapshot table := by
  rw [staleCount, staleCount, kind_count_keys, kind_count_keys]
  exact (stale_keys_updated set snapshot table).length_eq

theorem updated_live_count (table : Table U64 slot) :
    kindCount (fun key => !snapshot.stale key) (updated set snapshot table).entries =
      snapshot.ids.length := by
  rw [kind_count_keys]
  exact (live_keys_updated set snapshot table).length_eq

theorem reconcile_once_stale_count (table : Table U64 slot) :
    staleCount snapshot (reconcileOnce set snapshot table) ≤
      staleCount snapshot table - roundRate snapshot := by
  have deletes := walk_deletes snapshot.stale (maxEntries + 1) (updated set snapshot table)
  rw [updated_live_count] at deletes
  rw [← updated_stale_count set snapshot table]
  exact deletes

theorem no_stale_iff (table : Table U64 slot) :
    staleCount snapshot table = 0 ↔ ∀ entry ∈ table.entries, snapshot.stale entry.1 = false := by
  rw [staleCount, kindCount, List.countP_eq_zero]
  apply forall₂_congr
  intro entry member
  rw [Bool.not_eq_true]

/-- The map after so many rounds in which every update succeeds. -/
def roundsTable : Nat → Table U64 slot → Table U64 slot
  | 0, table => table
  | rounds + 1, table => roundsTable rounds (reconcileOnce set snapshot table)

theorem sync_rounds_accepted (succeed : ∀ id ∈ snapshot.ids, accepts id = true) (rounds : Nat)
    (table : Table U64 slot) :
    syncRounds set accepts snapshot rounds (some table) =
      some (roundsTable set snapshot rounds table) := by
  induction rounds generalizing table with
  | zero => rfl
  | succ rounds induction =>
      rw [syncRounds, sync_once_accepted set accepts snapshot table succeed, roundsTable]
      exact induction (reconcileOnce set snapshot table)

/-- Rounds that have the time for all stale keys leave none, whatever the order of
the keys in the hash table. -/
theorem rounds_reconcile_table (rounds : Nat) (table : Table U64 slot)
    (enough : staleCount snapshot table ≤ (rounds + 1) * roundRate snapshot) :
    Reconciled set snapshot (roundsTable set snapshot (rounds + 1) table) := by
  induction rounds generalizing table with
  | zero =>
      have fewer := reconcile_once_stale_count set snapshot table
      apply (reconciled_iff_cleared set snapshot table).mpr
      apply (no_stale_iff snapshot _).mp
      change staleCount snapshot (reconcileOnce set snapshot table) = 0
      omega
  | succ rounds induction =>
      have fewer := reconcile_once_stale_count set snapshot table
      apply induction (reconcileOnce set snapshot table)
      rw [Nat.succ_mul (rounds + 1)] at enough
      omega

/-- While the snapshot stays the same and its updates succeed, the map is the
snapshot's after the number of rounds that its stale keys need, and after every
later round. -/
theorem sync_rounds_reconcile (succeed : ∀ id ∈ snapshot.ids, accepts id = true) (rounds : Nat)
    (previous : Table U64 slot)
    (enough : staleCount snapshot previous ≤ (rounds + 1) * roundRate snapshot) (later : Nat) :
    ∃ table, syncRounds set accepts snapshot (rounds + 1 + later) (some previous) = some table ∧
      Reconciled set snapshot table := by
  refine ⟨_, sync_rounds_accepted set accepts snapshot succeed _ previous, ?_⟩
  have more : staleCount snapshot previous ≤ (rounds + later + 1) * roundRate snapshot := by
    apply Nat.le_trans enough
    apply Nat.mul_le_mul_right
    omega
  have same : rounds + 1 + later = rounds + later + 1 := by omega
  rw [same]
  exact rounds_reconcile_table set snapshot (rounds + later) previous more

end Rounds

/-- The map that one round leaves with stale keys is clean after the second. -/
theorem crowded_map_clean_in_two :
    ∃ table, syncRounds slowProdSet (fun _ => true) (numberedSnapshot 0 256 (by decide)) 2
        (some (numberedMap 256 256 (by decide))) = some table ∧
      Reconciled slowProdSet (numberedSnapshot 0 256 (by decide)) table := by
  apply sync_rounds_reconcile slowProdSet (fun _ => true) _ (fun _ _ => rfl) 1 _ _ 0
  have stale : staleCount (numberedSnapshot 0 256 (by decide)) (numberedMap 256 256 (by decide)) ≤
      256 := by
    apply Nat.le_trans List.countP_le_length
    rw [numberedMap, List.length_map, numbered, List.length_map, List.length_range]
  have rate : roundRate (numberedSnapshot 0 256 (by decide)) = 255 := by
    rw [roundRate, numbered_snapshot_ids, numbered, List.length_map, List.length_range]
    decide
  rw [rate]
  omega

end KoAgent.ReconciliationRounds
