import KoAgent.PushdownRefinement
import KoAgent.TableWalks

/-!
# `syncOnce` of `pkg/tracer/cel.go`

The verdict map is brought to a snapshot of the attributes in two loops: every id
of the snapshot is updated, then the map is walked and every other key deleted.
The walk is that of the map library, over the keys of the hash table in the order
of their slots: it goes on while it has not taken more steps than `max_entries`,
and a deleted key sends it back to the start.
-/

namespace KoAgent.VerdictReconciliation

open KoAgent.FilterModel KoAgent.FilterSets KoAgent.PushdownRefinement
open KoAgent.KeyedTables KoAgent.TableWalks

set_option autoImplicit false

/-- `max_entries` of `ko_cgroup_verdict`. -/
def maxEntries : Nat := 65536

/-- A map from cgroup ids to attributes, in the order of one iteration over it. -/
structure AttrsSnapshot where
  entries : List (U64 × CgroupAttrs)
  distinct : (entries.map Prod.fst).Nodup

namespace AttrsSnapshot

def ids (snapshot : AttrsSnapshot) : List U64 := snapshot.entries.map Prod.fst

def find (snapshot : AttrsSnapshot) (id : U64) : Option CgroupAttrs := snapshot.entries.lookup id

def stale (snapshot : AttrsSnapshot) (key : U64) : Bool := (snapshot.find key).isNone

theorem find_iff (snapshot : AttrsSnapshot) (id : U64) (attrs : CgroupAttrs) :
    snapshot.find id = some attrs ↔ (id, attrs) ∈ snapshot.entries :=
  lookup_some_iff snapshot.entries snapshot.distinct id attrs

theorem stale_false_iff (snapshot : AttrsSnapshot) (key : U64) :
    snapshot.stale key = false ↔ key ∈ snapshot.ids := by
  rw [stale, Option.isNone_eq_false_iff, Option.isSome_iff_exists, ids, List.mem_map]
  constructor
  · intro found
    rcases found with ⟨attrs, found⟩
    exact ⟨(key, attrs), (snapshot.find_iff key attrs).mp found, rfl⟩
  · intro listed
    rcases listed with ⟨entry, member, rfl⟩
    exact ⟨entry.2, (snapshot.find_iff entry.1 entry.2).mpr member⟩

end AttrsSnapshot

section Sync

variable {slot : U64 ↪ Nat} (set : FilterSet)

/-- The loop over the snapshot: the map it leaves, and whether every update succeeded.
`accepts` says whether the update of a key does. -/
def updateVerdicts (accepts : U64 → Bool) :
    List (U64 × CgroupAttrs) → Table U64 slot → Table U64 slot × Bool
  | [], table => (table, true)
  | entry :: rest, table =>
      if accepts entry.1 then
        updateVerdicts accepts rest (table.insert entry.1 (set.verdictMask entry.2))
      else (table, false)

def removeStale (snapshot : AttrsSnapshot) (table : Table U64 slot) : Table U64 slot :=
  table.walk snapshot.stale (maxEntries + 1) none

/-- `attrs` and `verdictMap` are absent when the source has `nil` there. -/
def syncOnce (accepts : U64 → Bool) (attrs : Option AttrsSnapshot)
    (verdictMap : Option (Table U64 slot)) : Option (Table U64 slot) :=
  match attrs, verdictMap with
  | some snapshot, some table =>
      match updateVerdicts set accepts snapshot.entries table with
      | (updated, true) => some (removeStale snapshot updated)
      | (updated, false) => some updated
  | _, verdictMap => verdictMap

/-- The map holds the ids of the snapshot and nothing else, each with its mask. -/
def Reconciled (snapshot : AttrsSnapshot) (table : Table U64 slot) : Prop :=
  ∀ id, table.lookup id = (snapshot.find id).map set.verdictMask

/-- For each key of the map that the snapshot does not have: one step, and one for
each id of the snapshot at a smaller slot. -/
def staleWork (snapshot : AttrsSnapshot) (table : Table U64 slot) : Nat :=
  ((table.keys.filter snapshot.stale).map fun key =>
    1 + snapshot.ids.countP fun id => slot id < slot key).sum

/-! ## The updates -/

theorem update_verdicts_accepted (accepts : U64 → Bool) (entries : List (U64 × CgroupAttrs))
    (table : Table U64 slot) (succeed : ∀ entry ∈ entries, accepts entry.1 = true) :
    updateVerdicts set accepts entries table =
      (entries.foldl (fun table entry => table.insert entry.1 (set.verdictMask entry.2)) table,
        true) := by
  induction entries generalizing table with
  | nil => rfl
  | cons first rest induction =>
      rw [updateVerdicts, if_pos (succeed first List.mem_cons_self), List.foldl_cons]
      apply induction
      intro entry member
      exact succeed entry (List.mem_cons_of_mem first member)

theorem mem_updated (entries : List (U64 × CgroupAttrs)) (table : Table U64 slot)
    (distinct : (entries.map Prod.fst).Nodup) (verdict : U64 × U64) :
    verdict ∈ (entries.foldl (fun table entry =>
        table.insert entry.1 (set.verdictMask entry.2)) table).entries ↔
      (∃ entry ∈ entries, verdict = (entry.1, set.verdictMask entry.2)) ∨
        (verdict.1 ∉ entries.map Prod.fst ∧ verdict ∈ table.entries) := by
  induction entries generalizing table with
  | nil => simp
  | cons first rest induction =>
      rw [List.map_cons, List.nodup_cons] at distinct
      rw [List.foldl_cons, induction _ distinct.2, Table.mem_insert, List.exists_mem_cons_iff,
        List.map_cons, List.mem_cons, not_or]
      constructor
      · intro cases
        rcases cases with later | ⟨absent, here | ⟨other, old⟩⟩
        · exact Or.inl (Or.inr later)
        · exact Or.inl (Or.inl here)
        · exact Or.inr ⟨⟨other, absent⟩, old⟩
      · intro cases
        rcases cases with (here | later) | ⟨⟨other, absent⟩, old⟩
        · right
          rw [here]
          exact ⟨distinct.1, Or.inl rfl⟩
        · exact Or.inl later
        · exact Or.inr ⟨absent, Or.inr ⟨other, old⟩⟩

/-- The map between the two loops. -/
def updated (snapshot : AttrsSnapshot) (previous : Table U64 slot) : Table U64 slot :=
  snapshot.entries.foldl (fun table entry => table.insert entry.1 (set.verdictMask entry.2)) previous

theorem sync_once_accepted (accepts : U64 → Bool) (snapshot : AttrsSnapshot)
    (previous : Table U64 slot) (succeed : ∀ id ∈ snapshot.ids, accepts id = true) :
    syncOnce set accepts (some snapshot) (some previous) =
      some (removeStale snapshot (updated set snapshot previous)) := by
  have each : ∀ entry ∈ snapshot.entries, accepts entry.1 = true := by
    intro entry member
    exact succeed entry.1 (List.mem_map.mpr ⟨entry, member, rfl⟩)
  simp only [syncOnce, update_verdicts_accepted set accepts snapshot.entries previous each]
  rfl

theorem mem_updated_keys (snapshot : AttrsSnapshot) (previous : Table U64 slot) (key : U64) :
    key ∈ (updated set snapshot previous).keys ↔ key ∈ snapshot.ids ∨ key ∈ previous.keys := by
  rw [Table.keys, List.mem_map]
  constructor
  · intro listed
    rcases listed with ⟨verdict, member, rfl⟩
    rcases (mem_updated set snapshot.entries previous snapshot.distinct verdict).mp member with
      ⟨entry, inside, rfl⟩ | ⟨_, old⟩
    · exact Or.inl (List.mem_map.mpr ⟨entry, inside, rfl⟩)
    · exact Or.inr (List.mem_map.mpr ⟨verdict, old, rfl⟩)
  · intro either
    by_cases listed : key ∈ snapshot.ids
    · rcases List.mem_map.mp listed with ⟨entry, inside, rfl⟩
      exact ⟨(entry.1, set.verdictMask entry.2),
        (mem_updated set snapshot.entries previous snapshot.distinct _).mpr
          (Or.inl ⟨entry, inside, rfl⟩), rfl⟩
    · rcases List.mem_map.mp (either.resolve_left listed) with ⟨verdict, old, rfl⟩
      exact ⟨verdict, (mem_updated set snapshot.entries previous snapshot.distinct _).mpr
        (Or.inr ⟨listed, old⟩), rfl⟩

/-! ## The walk -/

theorem stale_keys_updated (snapshot : AttrsSnapshot) (previous : Table U64 slot) :
    ((updated set snapshot previous).keys.filter snapshot.stale).Perm
      (previous.keys.filter snapshot.stale) := by
  apply (List.perm_ext_iff_of_nodup ((Table.distinct _).filter _) (previous.distinct.filter _)).mpr
  intro key
  rw [List.mem_filter, List.mem_filter, mem_updated_keys]
  constructor
  · intro both
    rcases both with ⟨listed | old, stale⟩
    · rw [(snapshot.stale_false_iff key).mpr listed] at stale
      cases stale
    · exact ⟨old, stale⟩
  · intro both
    exact ⟨Or.inr both.1, both.2⟩

theorem live_keys_updated (snapshot : AttrsSnapshot) (previous : Table U64 slot) :
    ((updated set snapshot previous).keys.filter fun key => !snapshot.stale key).Perm
      snapshot.ids := by
  apply (List.perm_ext_iff_of_nodup ((Table.distinct _).filter _) snapshot.distinct).mpr
  intro key
  rw [List.mem_filter, mem_updated_keys, Bool.not_eq_true', snapshot.stale_false_iff]
  constructor
  · intro both
    exact both.2
  · intro listed
    exact ⟨Or.inl listed, listed⟩

theorem work_updated (snapshot : AttrsSnapshot) (previous : Table U64 slot) :
    work snapshot.stale 0 (updated set snapshot previous).entries =
      staleWork snapshot previous := by
  have sum := work_sum snapshot.stale 0 _ (updated set snapshot previous).ordered
  have counts : ∀ key, ((updated set snapshot previous).keys.filter fun other =>
      !snapshot.stale other).countP (fun other => slot other < slot key) =
        snapshot.ids.countP fun id => slot id < slot key := by
    intro key
    exact (live_keys_updated set snapshot previous).countP_eq _
  rw [Table.keys] at counts
  simp only [counts, Nat.zero_add] at sum
  rw [sum, staleWork]
  exact ((stale_keys_updated set snapshot previous).map _).sum_eq

/-- However short the walk, the ids of the snapshot keep what was written for them. -/
theorem live_id_kept (snapshot : AttrsSnapshot) (previous : Table U64 slot) (id : U64)
    (attrs : CgroupAttrs) (found : snapshot.find id = some attrs) :
    (removeStale snapshot (updated set snapshot previous)).lookup id =
      some (set.verdictMask attrs) := by
  have listed : (id, attrs) ∈ snapshot.entries := (snapshot.find_iff id attrs).mp found
  have live : snapshot.stale id = false := by
    rw [AttrsSnapshot.stale, found, Option.isNone_some]
  have written : (id, set.verdictMask attrs) ∈ (updated set snapshot previous).entries :=
    (mem_updated set snapshot.entries previous snapshot.distinct _).mpr
      (Or.inl ⟨(id, attrs), listed, rfl⟩)
  rw [Table.lookup_iff]
  exact walk_keeps snapshot.stale _ _ _ _ written live

/-- Any other key the map still has was there before, with the value it had. -/
theorem stale_key_old (snapshot : AttrsSnapshot) (previous : Table U64 slot) (key value : U64)
    (missing : snapshot.find key = none)
    (left : (removeStale snapshot (updated set snapshot previous)).lookup key = some value) :
    previous.lookup key = some value := by
  have member := walk_mem snapshot.stale _ _ _ _ ((Table.lookup_iff _ key value).mp left)
  rcases (mem_updated set snapshot.entries previous snapshot.distinct _).mp member with
    ⟨entry, inside, same⟩ | ⟨_, old⟩
  · cases same
    rw [(snapshot.find_iff entry.1 entry.2).mpr inside] at missing
    cases missing
  · exact (Table.lookup_iff previous key value).mpr old

theorem sync_once_sound (accepts : U64 → Bool) (snapshot : AttrsSnapshot)
    (previous : Table U64 slot) (succeed : ∀ id ∈ snapshot.ids, accepts id = true) :
    ∃ table, syncOnce set accepts (some snapshot) (some previous) = some table ∧
      (∀ id attrs, snapshot.find id = some attrs →
        table.lookup id = some (set.verdictMask attrs)) ∧
      ∀ key value, snapshot.find key = none → table.lookup key = some value →
        previous.lookup key = some value :=
  ⟨_, sync_once_accepted set accepts snapshot previous succeed,
    live_id_kept set snapshot previous, stale_key_old set snapshot previous⟩

theorem reconciled_iff_cleared (snapshot : AttrsSnapshot) (previous : Table U64 slot) :
    Reconciled set snapshot (removeStale snapshot (updated set snapshot previous)) ↔
      ∀ entry ∈ (removeStale snapshot (updated set snapshot previous)).entries,
        snapshot.stale entry.1 = false := by
  constructor
  · intro reconciled entry member
    have held := (Table.lookup_iff _ entry.1 entry.2).mpr member
    rw [reconciled entry.1, Option.map_eq_some_iff] at held
    rcases held with ⟨attrs, found, _⟩
    rw [AttrsSnapshot.stale, found, Option.isNone_some]
  · intro cleared id
    cases found : snapshot.find id with
    | some attrs => exact live_id_kept set snapshot previous id attrs found
    | none =>
        rw [Option.map_none, Table.lookup_none_iff]
        intro value member
        have live := cleared (id, value) member
        rw [AttrsSnapshot.stale, found] at live
        cases live

theorem reconciled_iff_work (snapshot : AttrsSnapshot) (previous : Table U64 slot) :
    Reconciled set snapshot (removeStale snapshot (updated set snapshot previous)) ↔
      staleWork snapshot previous ≤ maxEntries + 1 := by
  rw [reconciled_iff_cleared, removeStale, walk_clears_iff, work_updated]

theorem reconciliation_complete_iff (accepts : U64 → Bool) (snapshot : AttrsSnapshot)
    (previous : Table U64 slot) (succeed : ∀ id ∈ snapshot.ids, accepts id = true) :
    (∃ table, syncOnce set accepts (some snapshot) (some previous) = some table ∧
        Reconciled set snapshot table) ↔
      staleWork snapshot previous ≤ maxEntries + 1 := by
  rw [sync_once_accepted set accepts snapshot previous succeed, ← reconciled_iff_work set]
  constructor
  · intro synced
    rcases synced with ⟨table, same, reconciled⟩
    cases same
    exact reconciled
  · intro reconciled
    exact ⟨_, rfl, reconciled⟩

end Sync

/-! ## Keys in the order of their numbers -/

def numberSlot : U64 ↪ Nat := ⟨BitVec.toNat, fun _ _ => BitVec.eq_of_toNat_eq⟩

def numbered (start count : Nat) : List U64 :=
  (List.range count).map fun index => BitVec.ofNat 64 (start + index)

theorem numbered_slot (start count : Nat) (small : start + count ≤ 2 ^ 64) (key : U64)
    (member : key ∈ numbered start count) :
    start ≤ numberSlot key ∧ numberSlot key < start + count := by
  rcases List.mem_map.mp member with ⟨index, inside, rfl⟩
  have below := List.mem_range.mp inside
  have value : numberSlot (BitVec.ofNat 64 (start + index)) = start + index :=
    BitVec.toNat_ofNat (start + index) 64 |>.trans (Nat.mod_eq_of_lt (by omega))
  omega

theorem numbered_ordered (start count : Nat) (small : start + count ≤ 2 ^ 64) :
    (numbered start count).Pairwise fun left right => numberSlot left < numberSlot right := by
  rw [numbered, List.pairwise_map]
  apply List.pairwise_lt_range.imp_of_mem
  intro left right leftInside rightInside less
  have leftBelow := List.mem_range.mp leftInside
  have rightBelow := List.mem_range.mp rightInside
  change (BitVec.ofNat 64 (start + left)).toNat < (BitVec.ofNat 64 (start + right)).toNat
  rw [BitVec.toNat_ofNat, BitVec.toNat_ofNat, Nat.mod_eq_of_lt (by omega),
    Nat.mod_eq_of_lt (by omega)]
  omega

def numberedSnapshot (start count : Nat) (small : start + count ≤ 2 ^ 64) : AttrsSnapshot where
  entries := (numbered start count).map fun id => (id, {})
  distinct := by
    rw [List.map_map]
    change ((numbered start count).map id).Nodup
    rw [List.map_id]
    exact ascending_nodup numberSlot _ (numbered_ordered start count small)

def numberedMap (start count : Nat) (small : start + count ≤ 2 ^ 64) : Table U64 numberSlot where
  entries := (numbered start count).map fun key => (key, 0)
  ordered := by
    rw [List.pairwise_map]
    exact numbered_ordered start count small

theorem numbered_snapshot_ids (start count : Nat) (small : start + count ≤ 2 ^ 64) :
    (numberedSnapshot start count small).ids = numbered start count := by
  rw [AttrsSnapshot.ids, numberedSnapshot, List.map_map]
  exact List.map_id _

theorem numbered_map_keys (start count : Nat) (small : start + count ≤ 2 ^ 64) :
    (numberedMap start count small).keys = numbered start count := by
  rw [Table.keys, numberedMap, List.map_map]
  exact List.map_id _

/-- Every stale key lies behind every id of the snapshot. -/
theorem stale_work_numbered (live stale : Nat) (small : live + stale ≤ 2 ^ 64) :
    staleWork (numberedSnapshot 0 live (by omega)) (numberedMap live stale small) =
      stale * (1 + live) := by
  have apart : ∀ key ∈ numbered live stale,
      (numberedSnapshot 0 live (by omega)).stale key = true := by
    intro key member
    rw [← Bool.not_eq_false, AttrsSnapshot.stale_false_iff, numbered_snapshot_ids]
    intro listed
    have above := numbered_slot live stale small key member
    have below := numbered_slot 0 live (by omega) key listed
    omega
  have before : ∀ key ∈ numbered live stale,
      1 + (numbered 0 live).countP (fun id => numberSlot id < numberSlot key) = 1 + live := by
    intro key member
    have above := numbered_slot live stale small key member
    have every : (numbered 0 live).countP (fun id => numberSlot id < numberSlot key) =
        (numbered 0 live).length := by
      rw [List.countP_eq_length]
      intro id listed
      have below := numbered_slot 0 live (by omega) id listed
      simp only [decide_eq_true_eq]
      omega
    rw [every, numbered, List.length_map, List.length_range]
  rw [staleWork, numbered_map_keys, numbered_snapshot_ids, List.filter_eq_self.mpr apart,
    List.map_congr_left before, List.map_const', List.sum_replicate_nat, numbered, List.length_map,
    List.length_range]

/-- 256 ids of the snapshot before 256 stale keys: the walk would need 65792 steps. -/
theorem crowded_map_keeps_stale_keys :
    (numberedMap 256 256 (by decide)).entries.length +
        (numberedSnapshot 0 256 (by decide)).entries.length ≤ maxEntries ∧
      ¬ ∃ table, syncOnce slowProdSet (fun _ => true) (some (numberedSnapshot 0 256 (by decide)))
          (some (numberedMap 256 256 (by decide))) = some table ∧
        Reconciled slowProdSet (numberedSnapshot 0 256 (by decide)) table := by
  constructor
  · simp only [numberedMap, numberedSnapshot, numbered, List.length_map, List.length_range]
    decide
  · intro synced
    rcases synced with ⟨table, same, reconciled⟩
    rw [sync_once_accepted slowProdSet _ _ _ (fun _ _ => rfl)] at same
    rw [← Option.some.inj same, reconciled_iff_work, stale_work_numbered] at reconciled
    exact absurd reconciled (by decide)

/-- One id before three stale keys. -/
theorem small_map_reconciled :
    ∃ table, syncOnce slowProdSet (fun _ => true) (some (numberedSnapshot 0 1 (by decide)))
        (some (numberedMap 1 3 (by decide))) = some table ∧
      Reconciled slowProdSet (numberedSnapshot 0 1 (by decide)) table := by
  apply (reconciliation_complete_iff slowProdSet (fun _ => true) _ _ (fun _ _ => rfl)).mpr
  rw [stale_work_numbered]
  decide

end KoAgent.VerdictReconciliation
